import S3o.Service.Read
import S3o.System.Served

/-!
# Round trips

What one client has put, another gets, whatever their configurations and however the parts and the
ranges are scheduled.

* `World.Alone`, `World.Fair`: nothing else writes the object, and the download is granted and answered;
* `installed`, `Alone.stays`: the object holds the body from the success of the upload on;
* `Told`, **`told_run`**: what the download is told;
* `Told.moves`: if it can go on, it does;
* **`round_trip`**: it returns the body;
* `comes_back`: it does return when no other call runs.
-/

namespace S3o

open Async Lts

variable {κ ι : Type} [DecidableEq κ] [DecidableEq ι]

/-- A step in which nothing but call `a` writes the object. -/
def World.Alone (a : ι) (bucket key : String) (w : World κ ι) (x : World.Label κ ι) (w' : World κ ι) :
    Prop :=
  World.Step w x w' ∧ ∀ i n r, x = .serve i n r → r.target = some (bucket, key) → i = a

/-- Such a step, in which call `b` is not dropped, its acquisition does not time out, and it is not
answered with an error. -/
def World.Fair (a b : ι) (bucket key : String) (w : World κ ι) (x : World.Label κ ι) (w' : World κ ι) :
    Prop :=
  World.Alone a bucket key w x w' ∧ ∀ c, x = .call b c → c.good = true

variable {S : Setup κ ι} {w w' w₀ w₁ : World κ ι} {l l₀ l₁ : List (World.Label κ ι × World κ ι)}
  {objects : String × String → Option Bytes} {a b : ι} {bucket key : String} {body : Body}

theorem Fair.run (h : Run (World.Fair a b bucket key) w₁ l w) :
    Run (World.Alone a bucket key) w₁ l w := h.imp fun _ _ _ h => h.1

theorem Alone.run (h : Run (World.Alone a bucket key) w₁ l w) : Run World.Step w₁ l w :=
  h.imp fun _ _ _ h => h.1

/-! ## The object -/

/-- **The object stays what call `a` has put.** -/
theorem Alone.stays (hop : S.op a = .put key body) (hr : Run World.Step (S.world objects) l w)
    {x : World.Label κ ι} (hs : World.Alone a bucket key w x w')
    (h : w.store.objects (bucket, key) = some body.data) :
    w'.store.objects (bucket, key) = some body.data := by
  obtain ⟨hs, ha⟩ := hs
  cases hs with
  | call hs hans => exact h
  | @serve i n r c o σ hq hserve =>
    dsimp only
    cases ht : r.target with
    | none =>
      rw [(Store.serve_step hserve).objects_eq ht]
      exact h
    | some t =>
      by_cases htk : t = (bucket, key)
      · subst htk
        obtain rfl := ha i n r rfl ht
        exact (intact_run hr).puts hr hq hserve hop ht
      · obtain ⟨b, k⟩ := t
        obtain ⟨x, hx, -⟩ := (intact_run hr).installs hr hq hserve ht
        rw [hx, Function.update_of_ne (Ne.symm htk)]
        exact h

/-- **The object holds the body** when the upload has returned a success. -/
theorem installed (hop : S.op a = .put key body) (h₀ : Run World.Step (S.world objects) l₀ w₀)
    (ha : (w₀.sys.procs a).started = false)
    (h₁ : Run (World.Alone a (S.client a).config.bucket key) w₀ l₁ w₁) {v : Value}
    (hm : (w₁.sys.procs a).mode = .ended (some (.ok v))) :
    w₁.store.objects ((S.client a).config.bucket, key) = some body.data := by
  -- from the first reply to a write of the upload on
  have hwritten : ∀ n r o, (a, n, ⟨r, o⟩) ∈ w₁.replies →
      r.target = some ((S.client a).config.bucket, key) →
      w₁.store.objects ((S.client a).config.bucket, key) = some body.data := by
    refine h₁.history (I := fun l w => ∀ n r o, (a, n, ⟨r, o⟩) ∈ w.replies →
      r.target = some ((S.client a).config.bucket, key) →
      w.store.objects ((S.client a).config.bucket, key) = some body.data) ?_ ?_
    · intro n r o hm
      have := started_of_mem h₀ ((recorded_run h₀).asked a n r o hm)
      rw [ha] at this
      cases this
    · intro l w x t hr hI hs n r o hm ht
      have hrun := h₀.append (Alone.run hr)
      have hkeep := Alone.stays hop hrun hs
      obtain ⟨hs, -⟩ := hs
      cases hs with
      | call hs hans => exact hkeep (hI n r o hm ht)
      | serve hq hserve =>
        rcases List.mem_cons.mp hm with heq | hm
        · cases heq
          exact (intact_run hrun).puts hrun hq hserve hop ht
        · exact hkeep (hI n r o hm ht)
  have hrun := h₀.append (Alone.run h₁)
  obtain ⟨l', hsys⟩ := World.sys_run hrun
  have hstored := (honest_run hsys a).tells hm
  rw [hop] at hstored
  rcases hstored with ⟨n, ck, hrep⟩ | ⟨n, uid, parts, hrep⟩
  · exact hwritten n _ _ ((recorded_run hrun).known a n _ _ hrep).1 rfl
  · exact hwritten n _ _ ((recorded_run hrun).known a n _ _ hrep).1 rfl

/-! ## The download -/

/-- **What the download is told**: the length and the bytes of `d`. -/
structure Told (b : ι) (bucket key : String) (d : Bytes) (w : World κ ι) : Prop where
  stored : w.store.objects (bucket, key) = some d
  smooth : (w.sys.procs b).Smooth
  head : ∀ n o, (b, n, ⟨.headObject bucket key, o⟩) ∈ w.replies →
    o.contentLength = some (d.length : ℤ)
  get : ∀ n range o, (b, n, ⟨.getObject bucket key range, o⟩) ∈ w.replies → o.body = partOf d range

theorem smooth_of_fresh (hr : Run World.Step (S.world objects) l w)
    (hb : (w.sys.procs b).started = false) : (w.sys.procs b).Smooth := by
  obtain ⟨l', hsys⟩ := World.sys_run hr
  have hd := tidy_run hsys b
  generalize w.sys.procs b = q at *
  cases hd with
  | fresh hp =>
    refine ⟨⟨⟨nofun, nofun⟩, fun tk htk => absurd htk List.not_mem_nil⟩, ?_⟩
    rintro (⟨s, c, hx⟩ | ⟨n, r, e, hx⟩ | ⟨n, s, e, hx⟩)
    · exact absurd hx List.not_mem_nil
    · exact absurd hx List.not_mem_nil
    · exact absurd hx List.not_mem_nil
  | _ => cases hb

/-- **What the download is told, in every run.** -/
theorem told_run (hop : S.op a = .put key body) (h₁ : Run World.Step (S.world objects) l₁ w₁)
    (hstored : w₁.store.objects (bucket, key) = some body.data)
    (hb : (w₁.sys.procs b).started = false) (h : Run (World.Fair a b bucket key) w₁ l w) :
    Told b bucket key body.data w := by
  have hnone : ∀ n r o, (b, n, ⟨r, o⟩) ∉ w₁.replies := by
    intro n r o hm
    have := started_of_mem h₁ ((recorded_run h₁).asked b n r o hm)
    rw [hb] at this
    cases this
  refine h.history (I := fun _ w => Told b bucket key body.data w) ?_ ?_
  · exact ⟨hstored, smooth_of_fresh h₁ hb, fun n o hm => absurd hm (hnone _ _ _),
      fun n range o hm => absurd hm (hnone _ _ _)⟩
  · intro l w x t hr hI hs
    have hkeep := Alone.stays hop (h₁.append (Alone.run (Fair.run hr))) hs.1 hI.stored
    obtain ⟨⟨hs, -⟩, hgood⟩ := hs
    cases hs with
    | @call i c t hs hans =>
      refine ⟨hkeep, smooth_step hs (fun hi => ?_) hI.smooth, hI.head, hI.get⟩
      exact hgood c (by rw [hi])
    | serve hq hserve =>
      refine ⟨hkeep, hI.smooth, fun n o hm => ?_, fun n range o hm => ?_⟩
      · rcases List.mem_cons.mp hm with heq | hm
        · cases heq
          obtain ⟨d, hd, -, hlen⟩ := serve_head hserve
          rw [hI.stored] at hd
          cases hd
          exact hlen
        · exact hI.head n o hm
      · rcases List.mem_cons.mp hm with heq | hm
        · cases heq
          obtain ⟨d, hd, hbody⟩ := serve_get hserve
          rw [hI.stored] at hd
          cases hd
          exact hbody
        · exact hI.get n range o hm

theorem Told.got {d : Bytes} (h : Told b bucket key d w) (hr : Run World.Step (S.world objects) l w)
    {range : Option ByteRange} {x : Bytes} (hg : Got (w.sys.procs b).past bucket key range x) :
    x = partOf d range := by
  obtain ⟨n, n', out, hrep, hcol⟩ := hg
  rw [(recorded_run hr).whole b n' _ _ hcol]
  exact h.get n range out ((recorded_run hr).known b n _ _ hrep).1

/-- **What the download fetches is the object.** -/
theorem Told.fetched {d : Bytes} (hlen : d.length ≤ isizeMax)
    (h : Told b (S.client b).config.bucket key d w) (hr : Run World.Step (S.world objects) l w)
    {x : Bytes} (hf : Fetched (S.client b) key (w.sys.procs b).past x) : x = d := by
  rcases hf with hg | ⟨n, out, hrep, -, ps, hps, rfl, hall⟩
  · exact h.got hr hg
  · have hhead := h.head n out ((recorded_run hr).known b n _ _ hrep).1
    rw [hhead, Option.getD_some, asU64_length hlen] at hps hall
    obtain ⟨v, hv, heq⟩ := ranges_assembled (chunkSize_pos _) (UInt64.toNat_lt _) hlen hps
      (P := fun d' => d' = d) fun x hx => ⟨d, rfl, h.got hr (hall x hx)⟩
    rw [heq]
    exact assembled_self (chunkSize_pos _) (UInt64.toNat_lt _) hlen hv

/-! ## The download goes on -/

theorem Told.served {d : Bytes} (hlen : d.length ≤ isizeMax)
    (h : Told b (S.client b).config.bucket key d w) (hr : Run World.Step (S.world objects) l w)
    (hop : S.op b = .get key) {m : ℕ} {r : Request} (hq : requested m r ∈ (w.sys.procs b).trace) :
    r.target = none ∧ ∃ o σ, w.store.serve (plainChoice "") r = some (o, σ) := by
  have hhon := honest_request hr hq
  rw [hop] at hhon
  cases r with
  | headObject bucket key' =>
    obtain ⟨hk, rfl⟩ := hhon
    obtain rfl : key = key' := by simpa using hk
    obtain ⟨o, ho⟩ := can_head (c := plainChoice "") h.stored hlen
    exact ⟨rfl, o, _, ho⟩
  | getObject bucket key' range =>
    obtain ⟨hk, rfl⟩ := hhon
    cases hk
    obtain ⟨o, ho⟩ := can_get (c := plainChoice "") range h.stored
    exact ⟨rfl, o, _, ho⟩
  | deleteObject =>
    obtain ⟨hk, -⟩ := hhon
    cases hk
  | _ =>
    obtain ⟨_, hk, -⟩ := hhon
    cases hk

/-- **A download that can go on** does so with a step that is granted and answered. -/
theorem Told.moves (hlen : body.data.length ≤ isizeMax)
    (h : Told b (S.client b).config.bucket key body.data w)
    (hr : Run World.Step (S.world objects) l w) (hop : S.op b = .get key) (hgo : w.sys.GoesOn b) :
    ∃ l' w' c, Run (World.Fair a b (S.client b).config.bucket key) w l' w' ∧
      Sys.Step w.sys (b, c) w'.sys ∧ c.good = true := by
  obtain ⟨l', hsys⟩ := World.sys_run hr
  have hcall : ∀ {v : World κ ι} {c : Act κ} {t : Sys κ ι}, Sys.Step v.sys (b, c) t → v.Answers b c →
      c.good = true → World.Fair a b (S.client b).config.bucket key v (.call b c) { v with sys := t } := by
    intro v c t hs hans hgood
    exact ⟨⟨.call hs hans, fun i n r heq => by cases heq⟩, fun c' heq => by cases heq; exact hgood⟩
  rcases hgo with ⟨c, t, hs, hgood, hans⟩ | ⟨m, x, hany⟩
  · have hanswers : w.Answers b c := by
      unfold World.Answers
      split
      · cases hans
      · cases hans
      · trivial
    exact ⟨_, _, c, Run.nil.snoc (hcall hs hanswers hgood), hs, hgood⟩
  · cases x with
    | http r =>
      obtain ⟨t₀, hs₀⟩ := hany (.error (.other ""))
      have hq := sent_of_answered hsys hs₀
      obtain ⟨ht, o, σ, hserve⟩ := h.served hlen hr hop hq
      obtain ⟨t, hs⟩ := hany (.ok o)
      have hserved : World.Fair a b (S.client b).config.bucket key w (.serve b m r)
          { w with store := σ, replies := (b, m, ⟨r, o⟩) :: w.replies } := by
        refine ⟨⟨.serve hq hserve, fun i n r' heq ht' => ?_⟩, fun c heq => by cases heq⟩
        cases heq
        rw [ht] at ht'
        cases ht'
      refine ⟨_, _, _, (Run.nil.snoc hserved).snoc (hcall hs ?_ rfl), hs, rfl⟩
      exact Or.inr ⟨o, rfl, List.mem_cons_self⟩
    | collect s =>
      obtain ⟨t, hs⟩ := hany (.ok s)
      exact ⟨_, _, _, Run.nil.snoc (hcall hs (Or.inr rfl) rfl), hs, rfl⟩

theorem loopFree_run {s : Sys κ ι} {l : List ((ι × Act κ) × Sys κ ι)} (hr : Run Sys.Step S.init l s)
    (hop : S.op b = .get key) : (s.procs b).LoopFree := by
  refine hr.invariant (I := fun s => (s.procs b).LoopFree) ?_ fun s x t hI hs => loopFree_step hs hI
  show ((S.op b).program (S.client b)).LoopFree
  rw [hop]
  exact op_loopFree _ nofun

theorem Fair.sys_step (h : ∃ x, World.Fair a b bucket key w x w') : w'.sys = w.sys ∨
    ∃ j c, Sys.Step w.sys (j, c) w'.sys ∧ (j = b → c.good = true) := by
  obtain ⟨x, ⟨hs, -⟩, hgood⟩ := h
  cases hs with
  | call hs hans => exact Or.inr ⟨_, _, hs, fun hj => hgood _ (by rw [hj])⟩
  | serve hq hserve => exact Or.inl rfl

theorem Fair.reach {f : ℕ → World κ ι} (hf : ∀ n, f (n + 1) = f n ∨
    ∃ x, World.Fair a b bucket key (f n) x (f (n + 1))) (n : ℕ) :
    ∃ l, Run (World.Fair a b bucket key) (f 0) l (f n) := by
  induction n with
  | zero => exact ⟨[], .nil⟩
  | succ n ih =>
    obtain ⟨l, hr⟩ := ih
    rcases hf n with heq | ⟨x, hs⟩
    · rw [heq]
      exact ⟨l, hr⟩
    · exact ⟨_, hr.snoc hs⟩

/-- **Round trip.** Call `a` has put the body of an object and returned a success, nothing else has written
the object since, and call `b`, of any client, gets it. Granted its permits and answered without errors,
`b` returns nothing but the body. It goes on as long as it does not wait for permits, and when it is not
left waiting it returns. -/
theorem round_trip (S : Setup κ ι) (objects : String × String → Option Bytes)
    (ha : S.op a = .put key body) (hb : S.op b = .get key)
    (hbucket : (S.client b).config.bucket = bucket) (habucket : (S.client a).config.bucket = bucket)
    (h₀ : Run World.Step (S.world objects) l₀ w₀) (ha₀ : (w₀.sys.procs a).started = false)
    (h₁ : Run (World.Alone a bucket key) w₀ l₁ w₁) {v : Value}
    (hok : (w₁.sys.procs a).mode = .ended (some (.ok v))) (hb₁ : (w₁.sys.procs b).started = false) :
    (∀ l w, Run (World.Fair a b bucket key) w₁ l w →
      (∀ r, (w.sys.procs b).mode = .ended r → r = some (.ok (.data body.data))) ∧
      ((w.sys.procs b).hasEnded = false → ¬ (w.sys.procs b).WaitsFor (S.home b) →
        ∃ l' w', Run (World.Fair a b bucket key) w l' w' ∧ w'.sys.procs b ≠ w.sys.procs b)) ∧
    ∀ f : ℕ → World κ ι, f 0 = w₁ →
      (∀ n, f (n + 1) = f n ∨ ∃ x, World.Fair a b bucket key (f n) x (f (n + 1))) →
      (∀ n, ((f n).sys.procs b).hasEnded = false →
        ∃ m, n ≤ m ∧ (f (m + 1)).sys.procs b ≠ (f m).sys.procs b) →
      ∃ n, ((f n).sys.procs b).mode = .ended (some (.ok (.data body.data))) := by
  have hrun₁ := h₀.append (Alone.run h₁)
  have hstored : w₁.store.objects (bucket, key) = some body.data := by
    rw [← habucket] at h₁ ⊢
    exact installed ha h₀ ha₀ h₁ hok
  have htold : ∀ {l w}, Run (World.Fair a b bucket key) w₁ l w → Told b bucket key body.data w :=
    fun h => told_run ha hrun₁ hstored hb₁ h
  have hresult : ∀ {l w}, Run (World.Fair a b bucket key) w₁ l w →
      ∀ r, (w.sys.procs b).mode = .ended r → r = some (.ok (.data body.data)) := by
    intro l w h r hm
    have hrun := hrun₁.append (Alone.run (Fair.run h))
    have ht := htold h
    obtain ⟨l', hsys⟩ := World.sys_run hrun
    cases r with
    | none => exact absurd hm ht.smooth.kept.1
    | some r =>
      have hres := (honest_run hsys b).tells hm
      rw [hb] at hres
      cases r with
      | error e => exact absurd hres ht.smooth.past
      | ok v =>
        obtain ⟨d, rfl, hf⟩ := hres
        rw [← hbucket] at ht
        rw [ht.fetched body.len_le hrun hf]
  refine ⟨fun l w h => ⟨hresult h, fun he hw => ?_⟩, fun f hf₀ hf hfair => ?_⟩
  · have hrun := hrun₁.append (Alone.run (Fair.run h))
    have ht := htold h
    obtain ⟨l', hsys⟩ := World.sys_run hrun
    rw [← hbucket] at ht ⊢
    obtain ⟨l', w', c, h', hs, hgood⟩ := ht.moves body.len_le hrun hb (goes_on hsys he hw)
    exact ⟨l', w', h', step_ne hs hgood⟩
  · obtain ⟨l', hsys⟩ := World.sys_run hrun₁
    have hfree : ((f 0).sys.procs b).LoopFree := hf₀ ▸ loopFree_run hsys hb
    obtain ⟨N, hN⟩ := comes_to_rest (f := fun n => (f n).sys) hfree fun n =>
      (hf n).elim (fun heq => Or.inl (congrArg World.sys heq)) Fair.sys_step
    have hended : ((f N).sys.procs b).hasEnded = true := by
      by_contra hne
      obtain ⟨m, hm, hch⟩ := hfair N (by simpa using hne)
      exact hch ((hN (m + 1) (by omega)).trans (hN m hm).symm)
    obtain ⟨r, hr⟩ := Proc.hasEnded_iff.mp hended
    obtain ⟨l, hreach⟩ := Fair.reach hf N
    rw [hf₀] at hreach
    obtain rfl := hresult hreach r hr
    exact ⟨N, hr⟩

/-- **A download returns** when no other call runs. -/
theorem comes_back [Fintype ι] (hS : S.Narrow) (ha : S.op a = .put key body) (hb : S.op b = .get key)
    (h₁ : Run World.Step (S.world objects) l₁ w₁)
    (hstored : w₁.store.objects ((S.client b).config.bucket, key) = some body.data)
    (hb₁ : (w₁.sys.procs b).started = false) (hrest : ∀ j, j ≠ b → (w₁.sys.procs j).active = false) :
    ∃ l w, Run (World.Fair a b (S.client b).config.bucket key) w₁ l w ∧
      (w.sys.procs b).hasEnded = true := by
  have hdown : ∀ w w' : World κ ι, ((∃ l, Run (World.Fair a b (S.client b).config.bucket key) w l w') ∧
      (∃ c, Sys.Step w.sys (b, c) w'.sys ∧ c.good = true) ∧ (w'.sys.procs b).LoopFree) →
        Multiset.IsDershowitzMannaLT ((w'.sys.procs b).bag 0) ((w.sys.procs b).bag 0) := by
    rintro w w' ⟨-, ⟨c, hs, hgood⟩, hfree⟩
    exact (hs.bag_lt (good_ne_cancel hgood).1 (good_ne_cancel hgood).2 hfree.turn.le).2
  obtain ⟨w, hpath, hstuck⟩ := comes_to_end (fun w => (w.sys.procs b).bag 0) hdown w₁
  have hreach : ∃ l, Run (World.Fair a b (S.client b).config.bucket key) w₁ l w ∧
      ∀ j, j ≠ b → (w.sys.procs j).active = false := by
    clear hstuck
    induction hpath with
    | refl => exact ⟨[], .nil, hrest⟩
    | tail _ hstep ih =>
      obtain ⟨l, hr, hothers⟩ := ih
      obtain ⟨⟨l', hr'⟩, ⟨c, hs, -⟩, -⟩ := hstep
      refine ⟨_, hr.append hr', fun j hj => ?_⟩
      rw [hs.other hj]
      exact hothers j hj
  obtain ⟨l, hr, hothers⟩ := hreach
  refine ⟨l, w, hr, ?_⟩
  have hrun := h₁.append (Alone.run (Fair.run hr))
  obtain ⟨l', hsys⟩ := World.sys_run hrun
  by_contra hne
  obtain ⟨j, hgo, hj⟩ := can_go hS hsys (eq_false_of_ne_true hne)
  obtain rfl : j = b := by
    by_contra hjb
    have hidle := hothers j hjb
    rw [hj.resolve_left hjb] at hidle
    cases hidle
  obtain ⟨l'', w', c, hr', hs, hgood⟩ :=
    (told_run ha h₁ hstored hb₁ hr).moves body.len_le hrun hb hgo
  refine hstuck w' ⟨⟨l'', hr'⟩, ⟨c, hs, hgood⟩, ?_⟩
  exact loopFree_step hs (loopFree_run hsys hb)
/-- A body of two parts comes back in two ranges. -/
theorem round_trip_large : ∃ l w, Run World.Step ((largeSetup largeBody).world fun _ => none) l w ∧
    (w.sys.procs 1).mode = .ended (some (.ok (.data largeBody.data))) := by
  obtain ⟨l₁, w₁, h₁, hok, hb₁⟩ := largeSetup_run
  have halone : Run (World.Alone 0 "bucket" "key") ((largeSetup largeBody).world fun _ => none) l₁ w₁ := by
    refine h₁.imp fun w x w' ⟨hs, hx⟩ => ⟨hs, fun i n r heq _ => ?_⟩
    subst heq
    exact hx
  have hstored := installed (S := largeSetup largeBody) (a := 0) rfl .nil rfl halone hok
  have hrest : ∀ j, j ≠ 1 → (w₁.sys.procs j).active = false := by
    intro j hj
    obtain rfl : j = 0 := by omega
    unfold Proc.active Proc.hasEnded
    rw [hok]
    exact Bool.and_false _
  obtain ⟨l, w, h, hended⟩ := comes_back (S := largeSetup largeBody) (a := 0) (b := 1) (small_narrow _)
    rfl rfl (Alone.run halone) hstored hb₁ hrest
  obtain ⟨r, hr⟩ := Proc.hasEnded_iff.mp hended
  obtain ⟨hret, -⟩ := round_trip (largeSetup largeBody) (fun _ => none) (a := 0) (b := 1) rfl rfl rfl rfl
    .nil rfl halone hok hb₁
  obtain rfl := (hret l w h).1 r hr
  exact ⟨_, w, (Alone.run halone).append (Alone.run (Fair.run h)), hr⟩

end S3o
