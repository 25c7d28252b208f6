import S3o.Async.History
import S3o.Lts.Shuffle

/-!
# Bounded unordered streams

The futures of a stream run interleaved. Each is specified by the history it writes alone, and the
history of the stream is an interleaving of these.

* `Woven`: a history as an interleaving of the histories of the futures;
* `Joined`, `Joined.step`: what holds while a stream is in progress;
* **`Prog.spec_bufferUnordered`**: the rule for streams;
* `exists_outcomes`: what became of its futures;
* `Prog.Streams`: how many futures the streams of a program may run at once.
-/

namespace Async

open Lts

variable {S : Sig} {α β : Type}

/-- **A history of a stream of `n` futures**: future `j` has written `loc j`, which satisfies `A j`. -/
structure Woven (n : ℕ) (A : ℕ → History S → Prop) (loc : ℕ → History S) (τ : History S) : Prop where
  shuffle : Shuffle loc τ
  kept : ∀ j, j < n → A j (loc j)
  outside : ∀ j, n ≤ j → loc j = []

/-- **A stream in progress**, after it has written `new`: the futures that wait for their turn have
written nothing, those in progress keep their watch, and those that are done have their results. -/
structure Joined (n w : ℕ) (A : ℕ → History S → Prop) (φ : ℕ → β → History S → Prop)
    (loc : ℕ → History S) (new : History S) (p : List (ℕ × Leaf S β)) (r : List (ℕ × Fut S β))
    (d : List (ℕ × β)) : Prop where
  woven : Woven n A loc new
  keys : (d.map Prod.fst ++ (r.map Prod.fst ++ p.map Prod.fst)).Perm (List.range n)
  width : r.length ≤ w
  pending : ∀ x ∈ p, loc x.1 = [] ∧ x.2.Spec (.of (A x.1)) (φ x.1) []
  running : ∀ x ∈ r, x.2.Spec (.of (A x.1)) (φ x.1) (loc x.1)
  done : ∀ x ∈ d, φ x.1 x.2 (loc x.1)

section

variable {n w : ℕ} {A : ℕ → History S → Prop} {φ : ℕ → β → History S → Prop} {loc : ℕ → History S}
  {new : History S} {p : List (ℕ × Leaf S β)} {r r₁ r₂ : List (ℕ × Fut S β)} {d : List (ℕ × β)} {j : ℕ}

/-- A future that has not finished and is not in progress has written nothing. -/
theorem Joined.quiet (h : Joined n w A φ loc new p r d) (hj : j ∉ r.map Prod.fst) :
    loc j = [] ∨ ∃ b, φ j b (loc j) := by
  rcases Nat.lt_or_ge j n with hn | hn
  · have hmem := h.keys.mem_iff.mpr (List.mem_range.mpr hn)
    rcases List.mem_append.mp hmem with hd | hrp
    · obtain ⟨x, hx, rfl⟩ := List.mem_map.mp hd
      exact Or.inr ⟨x.2, h.done x hx⟩
    · rcases List.mem_append.mp hrp with hr | hp
      · exact absurd hr hj
      · obtain ⟨x, hx, rfl⟩ := List.mem_map.mp hp
        exact Or.inl (h.pending x hx).1
  · exact Or.inl (h.woven.outside j hn)

theorem Joined.start {l : Leaf S β} (h : Joined n w A φ loc new ((j, l) :: p) r d) (hw : r.length < w) :
    Joined n w A φ loc new p (r ++ [(j, ⟨l, none⟩)]) d where
  woven := h.woven
  keys := by simpa using h.keys
  width := by simpa [Nat.succ_le_iff] using hw
  pending x hx := h.pending x (List.mem_cons_of_mem _ hx)
  running x hx := by
    rcases List.mem_append.mp hx with hx | hx
    · exact h.running x hx
    · obtain rfl := List.mem_singleton.mp hx
      obtain ⟨hloc, hl⟩ := h.pending _ List.mem_cons_self
      dsimp only at hloc hl ⊢
      rw [hloc]
      exact hl
  done := h.done

theorem Joined.join {f f' : Fut S β} {t m : ℕ} {e : Option (Ev S)}
    (h : Joined n w A φ loc new p (r₁ ++ (j, f) :: r₂) d) (hs : Fut.Step t m f e f') :
    Joined n w A φ (Function.update loc j (stamp t (e.map .event) ++ loc j))
      (stamp t (e.map .event) ++ new) p (r₁ ++ (j, f') :: r₂) d := by
  have hspec := (h.running (j, f) (List.mem_append_right _ List.mem_cons_self)).step ⟨t, m, e, hs, rfl⟩
  have hnodup := h.keys.nodup_iff.mpr List.nodup_range
  simp only [List.map_append, List.map_cons, List.nodup_append, List.nodup_cons, List.mem_append,
    List.mem_cons] at hnodup
  obtain ⟨-, ⟨⟨-, ⟨hj₂, -⟩, hj₁⟩, -, hjp⟩, hjd⟩ := hnodup
  have hjn : j < n := by
    refine List.mem_range.mp (h.keys.mem_iff.mp ?_)
    simp
  -- the other futures keep what they have written
  have hother : ∀ i, i ≠ j → Function.update loc j (stamp t (e.map .event) ++ loc j) i = loc i :=
    fun i hi => Function.update_of_ne hi _ _
  constructor
  · constructor
    · cases e with
      | none =>
        have hself : Function.update loc j (stamp t (Option.map Note.event (none : Option (Ev S))) ++ loc j)
            = loc := Function.update_eq_self j loc
        rw [hself]
        exact h.woven.shuffle
      | some e => exact h.woven.shuffle.cons j (t, .event e)
    · intro i hi
      by_cases hij : i = j
      · subst hij
        rw [Function.update_self]
        exact hspec.always
      · rw [hother i hij]
        exact h.woven.kept i hi
    · intro i hi
      rw [hother i (by omega)]
      exact h.woven.outside i hi
  · simpa using h.keys
  · simpa using h.width
  · intro x hx
    have hne : x.1 ≠ j := fun hxj =>
      hjp j (Or.inr (Or.inl rfl)) x.1 (List.mem_map_of_mem hx) hxj.symm
    rw [hother x.1 hne]
    exact h.pending x hx
  · intro x hx
    have hold : ∀ y ∈ r₁ ++ (j, f) :: r₂, y.1 ≠ j → Fut.Spec (.of (A y.1)) (φ y.1) y.2
        (Function.update loc j (stamp t (e.map .event) ++ loc j) y.1) := by
      intro y hy hne
      rw [hother y.1 hne]
      exact h.running y hy
    rcases List.mem_append.mp hx with hx | hx
    · refine hold x (List.mem_append_left _ hx) ?_
      exact fun hxj => hj₁ x.1 (List.mem_map_of_mem hx) j (Or.inl rfl) hxj
    · rcases List.mem_cons.mp hx with rfl | hx
      · dsimp only
        rw [Function.update_self]
        exact hspec
      · refine hold x (List.mem_append_right _ (List.mem_cons_of_mem _ hx)) ?_
        exact fun hxj => hj₂ (hxj ▸ List.mem_map_of_mem hx)
  · intro x hx
    have hne : x.1 ≠ j := fun hxj =>
      hjd x.1 (List.mem_map_of_mem hx) j (Or.inl (Or.inr (Or.inl rfl))) hxj
    rw [hother x.1 hne]
    exact h.done x hx

theorem Joined.finish {b : β} (h : Joined n w A φ loc new p (r₁ ++ (j, ⟨.ret b, none⟩) :: r₂) d) :
    Joined n w A φ loc new p (r₁ ++ r₂) (d ++ [(j, b)]) where
  woven := h.woven
  keys := by
    refine List.Perm.trans ?_ h.keys
    simp only [List.map_append, List.map_cons, List.map_nil, List.append_assoc]
    refine List.Perm.append_left _ ?_
    simpa using List.perm_middle.symm
  width := by
    have := h.width
    simp only [List.length_append, List.length_cons] at this ⊢
    omega
  pending := h.pending
  running x hx := by
    refine h.running x ?_
    simp only [List.mem_append, List.mem_cons] at hx ⊢
    tauto
  done x hx := by
    rcases List.mem_append.mp hx with hx | hx
    · exact h.done x hx
    · obtain rfl := List.mem_singleton.mp hx
      have := h.running (j, ⟨.ret b, none⟩) (List.mem_append_right _ List.mem_cons_self)
      exact ((Fut.spec_ret b).mp this).2

end

/-- **Bounded unordered streams.** Each future is specified by what it writes alone. While the stream
is in progress at most `w` futures are neither finished nor without a trace, and it returns the results
in the order in which the futures have finished. -/
theorem Prog.spec_bufferUnordered {W : Watch S} {ψ : List β → History S → Prop} {w : ℕ}
    {ls : List (Leaf S β)} {τ : History S} (A : ℕ → History S → Prop)
    (φ : ℕ → β → History S → Prop)
    (hl : ∀ (j : ℕ) (l : Leaf S β), ls[j]? = some l → l.Spec (.of (A j)) (φ j) [])
    (hw : ∀ loc new (R : Finset ℕ), Woven ls.length A loc new → R.card ≤ w →
      (∀ j, j ∉ R → loc j = [] ∨ ∃ b, φ j b (loc j)) → W.always (new ++ τ) ∧ W.paused (new ++ τ))
    (hk : ∀ loc new (rs : List (ℕ × β)) t, Woven ls.length A loc new →
      (rs.map Prod.fst).Perm (List.range ls.length) → (∀ x ∈ rs, φ x.1 x.2 (loc x.1)) →
      W.always ((t, .order (rs.map Prod.fst)) :: (new ++ τ)) ∧
        ψ (rs.map Prod.snd) ((t, .order (rs.map Prod.fst)) :: (new ++ τ))) :
    (Prog.bufferUnordered w ls).Spec W ψ τ := by
  have hstart : Joined ls.length w A φ (fun _ => []) [] (number 0 ls) [] [] := by
    refine ⟨⟨.nil, ?_, fun _ _ => rfl⟩, ?_, Nat.zero_le _, ?_, nofun, nofun⟩
    · intro j hj
      exact (hl j ls[j] (List.getElem?_eq_getElem hj)).always
    · simp [number_fst, List.range_eq_range']
    · intro x hx
      obtain ⟨j, hj, hl'⟩ := mem_number hx
      rw [Nat.zero_add] at hj
      exact ⟨rfl, hj ▸ hl j x.2 hl'⟩
  refine Throughout.of_invariant (I := fun τ' q =>
    (∃ loc new p r d, τ' = new ++ τ ∧ q = .join w p r d .ret ∧ Joined ls.length w A φ loc new p r d) ∨
    ∃ bs, q = .ret bs ∧ W.always τ' ∧ ψ bs τ') ?_ ?_ (Or.inl ⟨_, _, _, _, _, rfl, rfl, hstart⟩)
  · rintro τ' q (⟨loc, new, p, r, d, rfl, rfl, hJ⟩ | ⟨bs, rfl, hb, hψ⟩)
    · have hcard : (r.map Prod.fst).toFinset.card ≤ w :=
        (List.toFinset_card_le _).trans (by simpa using hJ.width)
      obtain ⟨h₁, h₂⟩ := hw loc new _ hJ.woven hcard fun j hj => hJ.quiet (by simpa using hj)
      exact ⟨h₁, fun _ => h₂, fun _ => False.elim, nofun⟩
    · refine ⟨hb, False.elim, fun _ => False.elim, ?_⟩
      rintro bs' ⟨⟩
      exact hψ
  · rintro τ' q x q' (⟨loc, new, p, r, d, rfl, rfl, hJ⟩ | ⟨bs, rfl, hb, hψ⟩) ⟨t, m, e, hs, rfl⟩
    · cases hs with
      | start hr => exact Or.inl ⟨_, _, _, _, _, rfl, rfl, hJ.start hr⟩
      | @join _ _ j f f' e p r₁ r₂ d k hs =>
        have hnote : Prog.note (.join w p (r₁ ++ (j, f) :: r₂) d .ret : Prog S (List β)) e =
            e.map .event := by
          cases e with
          | some e => rfl
          | none =>
            cases p with
            | nil => cases r₁ <;> rfl
            | cons x p => rfl
        rw [hnote]
        exact Or.inl ⟨_, _, _, _, _, (List.append_assoc _ _ _).symm, rfl, hJ.join hs⟩
      | @finish _ _ j b p r₁ r₂ d k =>
        have hnote : Prog.note (.join w p (r₁ ++ (j, ⟨.ret b, none⟩) :: r₂) d .ret : Prog S (List β))
            none = none := by
          cases p with
          | nil => cases r₁ <;> rfl
          | cons x p => rfl
        rw [hnote]
        exact Or.inl ⟨_, _, _, _, _, rfl, rfl, hJ.finish⟩
      | collect =>
        have hkeys : (d.map Prod.fst).Perm (List.range ls.length) := by simpa using hJ.keys
        exact Or.inr ⟨_, rfl, hk loc new d t hJ.woven hkeys hJ.done⟩
    · cases hs

/-- **The outcomes of a stream**, by the positions of its futures: each has a result `b` with an outcome
`x`, as `R` says. -/
theorem exists_outcomes {γ : ℕ → Type} [∀ j, Nonempty (γ j)] {R : ∀ j, β → γ j → Prop} {n : ℕ}
    {rs : List (ℕ × β)} (hperm : (rs.map Prod.fst).Perm (List.range n))
    (h : ∀ j b, (j, b) ∈ rs → ∃ x, R j b x) :
    ∃ x : ∀ j, γ j, (∀ j, j < n → ∃ b, R j b (x j)) ∧ ∀ j b, (j, b) ∈ rs → R j b (x j) := by
  have hnodup : (rs.map Prod.fst).Nodup := hperm.nodup_iff.mpr List.nodup_range
  have houtcome : ∀ j, ∃ x : γ j, ∀ b, (j, b) ∈ rs → R j b x := by
    intro j
    by_cases hj : ∃ b, (j, b) ∈ rs
    · obtain ⟨b, hb⟩ := hj
      obtain ⟨x, hx⟩ := h j b hb
      refine ⟨x, fun b' hb' => ?_⟩
      cases List.inj_on_of_nodup_map hnodup hb hb' rfl
      exact hx
    · obtain ⟨x⟩ := (inferInstance : Nonempty (γ j))
      exact ⟨x, fun b hb => absurd ⟨b, hb⟩ hj⟩
  choose x hx using houtcome
  refine ⟨x, fun j hj => ?_, hx⟩
  obtain ⟨p, hp, rfl⟩ := List.mem_map.mp (hperm.mem_iff.mpr (List.mem_range.mpr hj))
  exact ⟨p.2, hx p.1 p.2 hp⟩

/-! ## Widths -/

/-- How many futures the stream in progress may run at once. -/
def Prog.streamWidth : Prog S α → Option ℕ
  | .join w _ _ _ _ => some w
  | _ => none

/-- Every stream of the code may run a number of futures at once that `P` allows. -/
def Prog.Streams (P : ℕ → Prop) : Prog S α → Prop
  | .ret _ => True
  | .now k => ∀ t, (k t).Streams P
  | .emit _ k => k.Streams P
  | .acquire _ _ k => ∀ d, (k d).Streams P
  | .acquiring _ _ _ k => ∀ d, (k d).Streams P
  | .release k => k.Streams P
  | .run _ k => ∀ x, (k x).Streams P
  | .loop _ _ _ k => ∀ x, (k x).Streams P
  | .join w _ _ _ k => P w ∧ ∀ xs, (k xs).Streams P

section

variable {P : ℕ → Prop} {p q : Prog S α}

theorem Prog.Streams.width {w : ℕ} (h : p.Streams P) (hw : p.streamWidth = some w) : P w := by
  cases p with
  | join w' pd r d k =>
    obtain rfl := Option.some.inj hw
    exact h.1
  | _ => cases hw

theorem Prog.Streams.step {t n : ℕ} {e : Option (Ev S)} (h : p.Streams P) (hs : Prog.Step t n p e q) :
    q.Streams P := by
  cases hs with
  | now => exact h t
  | got => exact h _
  | lost => exact h _
  | ran => exact h _
  | leave => exact h _
  | collect => exact h.2 _
  | _ => exact h

theorem Prog.Streams.run {τ : History S} (h : p.Streams P) (hr : p.Runs τ q) : q.Streams P := by
  induction hr with
  | nil => exact h
  | snoc _ hstep ih =>
    obtain ⟨t, n, e, hstep, -⟩ := hstep
    exact ih.step hstep

theorem Prog.Streams.bind {f : α → Prog S β} (h : p.Streams P) (hf : ∀ a, (f a).Streams P) :
    (p.bind f).Streams P := by
  induction p with
  | ret a => exact hf a
  | now k ih => exact fun t => ih t (h t)
  | emit e k ih => exact ih h
  | acquire s a k ih => exact fun d => ih d (h d)
  | acquiring s a t k ih => exact fun d => ih d (h d)
  | release k ih => exact ih h
  | run g k ih => exact fun x => ih x (h x)
  | loop body i g k ih => exact fun x => ih x (h x)
  | join w p r d k ih => exact ⟨h.1, fun xs => ih xs (h.2 xs)⟩

end

end Async
