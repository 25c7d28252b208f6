import S3o.Wire.Messages

/-!
# Streams of exchanges

A future of an upload sends one request and waits for its reply. In a stream of such futures every
request is sent once, in some order, and at most as many are unanswered as the stream is wide.

* `Exchange`, `Exchanges`, `Exchanged`: one future, and a stream in progress and at its end;
* `Exchanges.requests`, `Exchanged.requests`: the requests of a stream, each once;
* `Exchanges.count_le`, `Exchanged.count_eq`: how many are unanswered;
* **`spec_exchanges`**: the rule for streams of exchanges.
-/

namespace S3o

open Async Lts

variable {κ β : Type}

/-- What a future that sends `r` and waits for the reply has said. -/
inductive Exchange (r : Request) : List Msg → Prop
  | silent : Exchange r []
  | asked : Exchange r [.request r]
  | told (x : Except SdkError r.Output) : Exchange r [.reply r x, .request r]

/-- **A stream in progress**: future `j` has said `f j`, and at most `w` requests are unanswered. -/
structure Exchanges (up : ℕ → Request) (n w : ℕ) (f : ℕ → List Msg) (ms : List Msg) : Prop where
  shuffle : Shuffle f ms
  each : ∀ j, j < n → Exchange (up j) (f j)
  outside : ∀ j, n ≤ j → f j = []
  unanswered : ∃ R : Finset ℕ, R.card ≤ w ∧ ∀ j, f j = [.request (up j)] → j ∈ R

/-- **A stream that has completed**: request `j` was answered with `x j`. -/
structure Exchanged (up : ℕ → Request) (n : ℕ) (x : ∀ j, Except SdkError (up j).Output)
    (f : ℕ → List Msg) (ms : List Msg) : Prop where
  shuffle : Shuffle f ms
  each : ∀ j, j < n → f j = [.reply (up j) (x j), .request (up j)]
  outside : ∀ j, n ≤ j → f j = []

section

variable {up : ℕ → Request} {n w : ℕ} {f : ℕ → List Msg} {ms : List Msg}
  {x : ∀ j, Except SdkError (up j).Output}

theorem Exchange.mem {r : Request} {m : Msg} (h : Exchange r ms) (hm : m ∈ ms) :
    m = .request r ∨ ∃ x, m = .reply r x := by
  cases h with
  | silent => cases hm
  | asked => exact Or.inl (List.mem_singleton.mp hm)
  | told x =>
    rcases List.mem_cons.mp hm with rfl | hm
    · exact Or.inr ⟨x, rfl⟩
    · exact Or.inl (List.mem_singleton.mp hm)

theorem Exchange.sent {r : Request} (h : Exchange r ms) (hne : ms ≠ []) : .request r ∈ ms := by
  cases h with
  | silent => exact absurd rfl hne
  | asked => exact List.mem_cons_self
  | told x => exact List.mem_cons_of_mem _ List.mem_cons_self

theorem Exchange.requests {r : Request} (h : Exchange r ms) : requestsOf ms = [] ∨ requestsOf ms = [r] := by
  cases h with
  | silent => exact Or.inl rfl
  | asked => exact Or.inr rfl
  | told x => exact Or.inr rfl

theorem Exchanged.exchanges (h : Exchanged up n x f ms) (w : ℕ) : Exchanges up n w f ms where
  shuffle := h.shuffle
  each j hj := h.each j hj ▸ .told (x j)
  outside := h.outside
  unanswered := by
    refine ⟨∅, Nat.zero_le _, fun j hj => ?_⟩
    rcases Nat.lt_or_ge j n with hn | hn
    · rw [h.each j hn] at hj
      cases hj
    · rw [h.outside j hn] at hj
      cases hj

theorem Exchanges.mem (h : Exchanges up n w f ms) {m : Msg} (hm : m ∈ ms) :
    ∃ j, j < n ∧ (m = .request (up j) ∨ ∃ x, m = .reply (up j) x) := by
  obtain ⟨j, hj⟩ := h.shuffle.mem_iff.mp hm
  rcases Nat.lt_or_ge j n with hn | hn
  · exact ⟨j, hn, (h.each j hn).mem hj⟩
  · rw [h.outside j hn] at hj
    cases hj

theorem Exchanges.single (h : Exchanges up n w f ms) (j : ℕ) :
    requestsOf (f j) = [] ∨ requestsOf (f j) = [up j] := by
  rcases Nat.lt_or_ge j n with hn | hn
  · exact (h.each j hn).requests
  · rw [h.outside j hn]
    exact Or.inl rfl

/-- **Every request is sent at most once.** -/
theorem Exchanges.requests (h : Exchanges up n w f ms) :
    ∃ js : List ℕ, js.Nodup ∧ (∀ j ∈ js, j < n) ∧ requestsOf ms = js.map up := by
  obtain ⟨js, hnodup, hmem, hms⟩ := (h.shuffle.filterMap _).singles up h.single
  refine ⟨js, hnodup, fun j hj => ?_, hms⟩
  by_contra hn
  refine (hmem j).mp hj ?_
  rw [h.outside j (not_lt.mp hn)]
  rfl

/-- **Every request of a stream that has completed was sent once.** -/
theorem Exchanged.requests (h : Exchanged up n x f ms) :
    ∃ js : List ℕ, js.Perm (List.range n) ∧ requestsOf ms = js.map up := by
  obtain ⟨js, hnodup, hmem, hms⟩ := (h.shuffle.filterMap _).singles up (h.exchanges 0).single
  refine ⟨js, (List.perm_ext_iff_of_nodup hnodup List.nodup_range).mpr fun j => ?_, hms⟩
  rw [hmem, List.mem_range]
  constructor
  · intro hj
    by_contra hn
    refine hj ?_
    rw [h.outside j (not_lt.mp hn)]
    rfl
  · intro hn
    rw [h.each j hn]
    exact List.cons_ne_nil _ _

theorem Exchanged.reply (h : Exchanged up n x f ms) {r : Request} {y : Except SdkError r.Output}
    (hm : .reply r y ∈ ms) : ∃ j, j < n ∧ (⟨r, y⟩ : Σ r : Request, Except SdkError r.Output) = ⟨up j, x j⟩ := by
  obtain ⟨j, hj⟩ := h.shuffle.mem_iff.mp hm
  rcases Nat.lt_or_ge j n with hn | hn
  · rw [h.each j hn] at hj
    refine ⟨j, hn, ?_⟩
    rcases List.mem_cons.mp hj with heq | hj
    · cases heq
      rfl
    · cases List.mem_singleton.mp hj
  · rw [h.outside j hn] at hj
    cases hj

theorem Exchanged.mem (h : Exchanged up n x f ms) {j : ℕ} (hj : j < n) : .reply (up j) (x j) ∈ ms := by
  refine h.shuffle.mem_iff.mpr ⟨j, ?_⟩
  rw [h.each j hj]
  exact List.mem_cons_self

/-- `asks` counts the requests of a stream and `tells` their replies. -/
structure Counts (up : ℕ → Request) (n : ℕ) (asks tells : Msg → Bool) : Prop where
  request : ∀ j, j < n → asks (.request (up j)) = true ∧ tells (.request (up j)) = false
  reply : ∀ j, j < n → ∀ x, asks (.reply (up j) x) = false ∧ tells (.reply (up j) x) = true

variable {asks tells : Msg → Bool}

/-- **At most `w` requests are unanswered.** -/
theorem Exchanges.count_le (h : Exchanges up n w f ms) (hc : Counts up n asks tells) :
    ms.countP asks ≤ ms.countP tells + w := by
  obtain ⟨R, hR, hopen⟩ := h.unanswered
  have hs : ∀ j, j ∉ Finset.range n → f j = [] := by
    intro j hj
    exact h.outside j (not_lt.mp fun hn => hj (Finset.mem_range.mpr hn))
  have heach : ∀ j ∈ Finset.range n,
      (f j).countP asks ≤ (f j).countP tells + if j ∈ R then 1 else 0 := by
    intro j hj
    have hn := Finset.mem_range.mp hj
    obtain ⟨h₁, h₂⟩ := hc.request j hn
    have he := h.each j hn
    have ho := hopen j
    generalize f j = fj at he ho
    cases he with
    | silent => exact Nat.zero_le _
    | asked => simp [h₁, h₂, ho rfl]
    | told x =>
      obtain ⟨h₃, h₄⟩ := hc.reply j hn x
      simp [h₁, h₂, h₃, h₄]
  have hcard : ∑ j ∈ Finset.range n, (if j ∈ R then 1 else 0) ≤ w := by
    rw [← Finset.card_filter]
    refine (Finset.card_le_card fun j hj => ?_).trans hR
    exact (Finset.mem_filter.mp hj).2
  have hsum := Finset.sum_le_sum heach
  rw [Finset.sum_add_distrib] at hsum
  rw [h.shuffle.countP asks hs, h.shuffle.countP tells hs]
  omega

theorem Exchanged.count_eq (h : Exchanged up n x f ms) (hc : Counts up n asks tells) :
    ms.countP asks = ms.countP tells := by
  have hs : ∀ j, j ∉ Finset.range n → f j = [] := by
    intro j hj
    exact h.outside j (not_lt.mp fun hn => hj (Finset.mem_range.mpr hn))
  rw [h.shuffle.countP asks hs, h.shuffle.countP tells hs]
  refine Finset.sum_congr rfl fun j hj => ?_
  have hn := Finset.mem_range.mp hj
  obtain ⟨h₁, h₂⟩ := hc.request j hn
  obtain ⟨h₃, h₄⟩ := hc.reply j hn (x j)
  rw [h.each j hn]
  simp [h₁, h₂, h₃, h₄]

end

/-- **Streams of exchanges.** Future `j` sends `up j` and turns the reply `x` into `res j x`. -/
theorem spec_exchanges {P : List Msg → Prop} {ψ : List β → History (S3 κ) → Prop} {w : ℕ}
    {ls : List (Leaf (S3 κ) β)} {τ : History (S3 κ)} (up : ℕ → Request)
    (res : ∀ j, Except SdkError (up j).Output → β)
    (hl : ∀ (j : ℕ) (l : Leaf (S3 κ) β), ls[j]? = some l → l.Spec (talk (Exchange (up j)))
      (fun b τ => ∃ x, said τ = [.reply (up j) x, .request (up j)] ∧ b = res j x) [])
    (hw : ∀ f ms, Exchanges up ls.length w f ms → P (ms ++ said τ))
    (hk : ∀ f new x js t, Exchanged up ls.length x f (said new) → js.Perm (List.range ls.length) →
      ψ (js.map fun j => res j (x j)) ((t, .order js) :: (new ++ τ))) :
    (Prog.bufferUnordered w ls).Spec (talk P) ψ τ := by
  refine Prog.spec_bufferUnordered (fun j τ => Exchange (up j) (said τ))
    (fun j b τ => ∃ x, said τ = [.reply (up j) x, .request (up j)] ∧ b = res j x) hl ?_ ?_
  · intro loc new R hwoven hR hquiet
    refine ⟨?_, trivial⟩
    dsimp only
    rw [said_append]
    refine hw (fun j => said (loc j)) _ ⟨woven_said hwoven, hwoven.kept, fun j hj => ?_, R, hR, ?_⟩
    · rw [hwoven.outside j hj]
      rfl
    · intro j hj
      by_contra hjR
      rcases hquiet j hjR with hnil | ⟨b, x, hx, -⟩
      · rw [hnil] at hj
        cases hj
      · rw [hj] at hx
        cases hx
  · intro loc new rs t hwoven hperm hres
    have hne : ∀ j, Nonempty (Except SdkError (up j).Output) := fun j => ⟨.error (.other "")⟩
    obtain ⟨x, hall, hx⟩ := exists_outcomes (γ := fun j => Except SdkError (up j).Output)
      (R := fun j b x => said (loc j) = [.reply (up j) x, .request (up j)] ∧ b = res j x)
      hperm fun j b hb => hres (j, b) hb
    have hdone : Exchanged up ls.length x (fun j => said (loc j)) (said new) := by
      refine ⟨woven_said hwoven, fun j hj => ?_, fun j hj => ?_⟩
      · obtain ⟨b, hb, -⟩ := hall j hj
        exact hb
      · rw [hwoven.outside j hj]
        rfl
    have hsnd : rs.map Prod.snd = (rs.map Prod.fst).map fun j => res j (x j) := by
      rw [List.map_map]
      exact List.map_congr_left fun p hp => (hx p.1 p.2 hp).2
    rw [hsnd]
    refine ⟨?_, hk _ new x _ t hdone hperm⟩
    dsimp only
    rw [said_order, said_append]
    exact hw _ _ (hdone.exchanges w)

end S3o
