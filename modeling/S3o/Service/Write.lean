import S3o.Service.Ledger
import S3o.Service.Script

/-!
# What is stored

Every part that the service has is a chunk of the body of the call that made the upload, under its
number. So a manifest that the service accepts assembles that body, and an object is always what one
request has written as a whole.

* `Setup.Wrote`, `World.Created`: who writes an object, and whose upload an id is;
* `Intact`, **`intact_run`**: the parts and the objects of a store, in every run;
* `Intact.installs`, `Intact.puts`: what a request that writes an object leaves there;
* **`writes_whole`**: an object is what it was, or gone, or the body of one call.
-/

namespace S3o

open Async Lts

variable {κ ι : Type}

/-- The object becomes `x` by call `i`. -/
def Setup.Wrote (S : Setup κ ι) (i : ι) (bucket key : String) (x : Option Bytes) : Prop :=
  (S.client i).config.bucket = bucket ∧
    ((S.op i = .delete key ∧ x = none) ∨ ∃ body, S.op i = .put key body ∧ x = some body.data)

/-- The service has given the upload id `uid` for call `i`. -/
def World.Created (w : World κ ι) (i : ι) (bucket key uid : String) : Prop :=
  ∃ n, (i, n, ⟨.createMultipartUpload bucket key, ⟨some uid⟩⟩) ∈ w.replies

/-- **What is stored**: an id is given once, a part is a chunk of the call that was given its id, and an
object was written by a call. -/
structure Intact (S : Setup κ ι) (objects : String × String → Option Bytes) (w : World κ ι) : Prop where
  used : ∀ i bucket key uid, w.Created i bucket key uid → uid ∈ w.store.used
  single : ∀ i j bucket bucket' key key' uid, w.Created i bucket key uid →
    w.Created j bucket' key' uid → i = j
  parts : ∀ uid u, w.store.uploads uid = some u → ∀ pn etag d, u.parts pn = some (etag, d) →
    ∃ i body, w.Created i u.bucket u.key uid ∧ S.op i = .put u.key body ∧
      (pn, d) ∈ (S.client i).chunks body.data
  objects : ∀ bucket key, w.store.objects (bucket, key) = objects (bucket, key) ∨
    ∃ i e, e ∈ (w.sys.procs i).trace ∧ S.Wrote i bucket key (w.store.objects (bucket, key))

variable [DecidableEq κ] [DecidableEq ι] {S : Setup κ ι} {w : World κ ι}
  {l : List (World.Label κ ι × World κ ι)} {objects : String × String → Option Bytes}

theorem honest_request (hr : Run World.Step (S.world objects) l w) {i : ι} {n : ℕ} {r : Request}
    (hq : requested n r ∈ (w.sys.procs i).trace) :
    Honest (S.client i) (S.op i) (w.sys.procs i).past r := by
  obtain ⟨l', hsys⟩ := World.sys_run hr
  exact (honest_run hsys i).honest _ hq

theorem created_of_known (hr : Run World.Step (S.world objects) l w) {i : ι} {bucket key uid : String}
    (h : Known (w.sys.procs i).past bucket key uid) : w.Created i bucket key uid := by
  obtain ⟨n, hn⟩ := h
  exact ⟨n, ((recorded_run hr).known i n _ _ hn).1⟩

section

variable {i : ι} {n : ℕ} {r : Request} {c : Choice} {o : r.Output} {σ : Store}

omit [DecidableEq κ] [DecidableEq ι] in
/-- A manifest that the service accepts assembles the body of the call. -/
theorem Intact.assembles (hI : Intact S objects w) {bucket key uid : String} {parts : List CompletedPart}
    {body : Body} (hop : S.op i = .put key body) (hc : w.Created i bucket key uid)
    (hp : (parts.map CompletedPart.partNumber).Perm (((S.client i).chunks body.data).map Prod.fst))
    {u : Upload} {l : List (ℤ × Bytes)} (hu : w.store.upload bucket key uid = some u)
    (hl : u.manifest parts = some l) : (l.map Prod.snd).flatten = body.data := by
  obtain ⟨hfst, hasc, hall⟩ := Upload.manifest_eq hl
  obtain ⟨hup, rfl, rfl⟩ := Store.upload_eq hu
  have hmem : ∀ x ∈ l, x ∈ (S.client i).chunks body.data := by
    intro x hx
    obtain ⟨-, etag, hx⟩ := hall x hx
    obtain ⟨j, body', hj, hopj, hchunk⟩ := hI.parts uid u hup _ _ _ hx
    obtain rfl := hI.single _ _ _ _ _ _ _ hc hj
    rw [hop] at hopj
    cases hopj
    exact hchunk
  rw [manifest_eq (chunks_fst (S.client i) body) (hfst ▸ hp) hmem hasc fun x hx => (hall x hx).1]
  exact chunks_flatten (S.client i) body

/-- **What a request that writes an object leaves there.** -/
theorem Intact.installs (hI : Intact S objects w) (hr : Run World.Step (S.world objects) l w)
    (hq : requested n r ∈ (w.sys.procs i).trace) (hs : w.store.serve c r = some (o, σ))
    {bucket key : String} (ht : r.target = some (bucket, key)) :
    ∃ x, σ.objects = Function.update w.store.objects (bucket, key) x ∧ S.Wrote i bucket key x := by
  have hhon := honest_request hr hq
  have hobj := (Store.serve_step hs).objects
  cases r with
  | putObject b k d ck =>
    cases ht
    obtain ⟨body, hop, hb, rfl⟩ := hhon
    exact ⟨_, hobj, hb.symm, Or.inr ⟨body, hop, rfl⟩⟩
  | deleteObject b k =>
    cases ht
    obtain ⟨hop, hb⟩ := hhon
    exact ⟨_, hobj, hb.symm, Or.inl ⟨hop, rfl⟩⟩
  | completeMultipartUpload b k uid parts =>
    cases ht
    obtain ⟨body, hop, hb, hk, hp⟩ := hhon
    obtain ⟨u, l', hu, hl, hobj⟩ := hobj
    rw [hI.assembles hop (created_of_known hr hk) hp hu hl] at hobj
    exact ⟨_, hobj, hb.symm, Or.inr ⟨body, hop, rfl⟩⟩
  | _ => cases ht

theorem Intact.puts (hI : Intact S objects w) (hr : Run World.Step (S.world objects) l w)
    (hq : requested n r ∈ (w.sys.procs i).trace) (hs : w.store.serve c r = some (o, σ))
    {bucket key key' : String} {body : Body} (hop : S.op i = .put key' body)
    (ht : r.target = some (bucket, key)) : σ.objects (bucket, key) = some body.data := by
  obtain ⟨x, hx, -, ⟨hdel, -⟩ | ⟨body', hput, rfl⟩⟩ := hI.installs hr hq hs ht
  · rw [hop] at hdel
    cases hdel
  · rw [hop] at hput
    cases hput
    rw [hx, Function.update_self]

theorem Intact.serve (hI : Intact S objects w) (hr : Run World.Step (S.world objects) l w)
    (hq : requested n r ∈ (w.sys.procs i).trace) (hs : w.store.serve c r = some (o, σ)) :
    Intact S objects { w with store := σ, replies := (i, n, ⟨r, o⟩) :: w.replies } := by
  have hstep := Store.serve_step hs
  -- an upload id that the new reply tells was not used before
  have hnew : ∀ j bucket key uid,
      World.Created { w with store := σ, replies := (i, n, ⟨r, o⟩) :: w.replies } j bucket key uid →
      w.Created j bucket key uid ∨ j = i ∧ uid ∉ w.store.used ∧ uid ∈ σ.used := by
    rintro j bucket key uid ⟨n', hn⟩
    rcases List.mem_cons.mp hn with heq | hn
    · cases heq
      exact Or.inr ⟨rfl, serve_create hs⟩
    · exact Or.inl ⟨n', hn⟩
  have hold : ∀ j bucket key uid, w.Created j bucket key uid →
      World.Created { w with store := σ, replies := (i, n, ⟨r, o⟩) :: w.replies } j bucket key uid :=
    fun j bucket key uid ⟨n', hn⟩ => ⟨n', List.mem_cons_of_mem _ hn⟩
  refine ⟨?_, ?_, ?_, ?_⟩
  · intro j bucket key uid hc
    rcases hnew _ _ _ _ hc with hc | ⟨-, -, hu⟩
    · exact hstep.used (hI.used _ _ _ _ hc)
    · exact hu
  · intro j j' bucket bucket' key key' uid h₁ h₂
    rcases hnew _ _ _ _ h₁ with hc₁ | ⟨hj₁, hu₁, -⟩
    · rcases hnew _ _ _ _ h₂ with hc₂ | ⟨-, hu₂, -⟩
      · exact hI.single _ _ _ _ _ _ _ hc₁ hc₂
      · exact absurd (hI.used _ _ _ _ hc₁) hu₂
    · rcases hnew _ _ _ _ h₂ with hc₂ | ⟨hj₂, -, -⟩
      · exact absurd (hI.used _ _ _ _ hc₂) hu₁
      · exact hj₁.trans hj₂.symm
  · intro uid u hu pn etag d hp
    rcases hstep.uploads hu with hu | hnone | ⟨u₀, pn', d', ck, etag', hu₀, hreq, hueq⟩
    · obtain ⟨j, body, hc, hop, hch⟩ := hI.parts uid u hu pn etag d hp
      exact ⟨j, body, hold _ _ _ _ hc, hop, hch⟩
    · rw [hnone] at hp
      cases hp
    · by_cases hpn : pn = pn'
      · subst hpn
        have hhon := honest_request hr hq
        rw [hreq] at hhon
        obtain ⟨body, hop, -, hk, hch⟩ := hhon
        rw [hueq] at hp
        dsimp only at hp
        rw [Function.update_self] at hp
        cases hp
        exact ⟨i, body, hold _ _ _ _ (created_of_known hr hk), hop, hch⟩
      · have hp₀ : u₀.parts pn = some (etag, d) := by
          rw [hueq] at hp
          dsimp only at hp
          rwa [Function.update_of_ne hpn] at hp
        obtain ⟨j, body, hc, hop, hch⟩ := hI.parts uid u₀ hu₀ pn etag d hp₀
        have hb : u.bucket = u₀.bucket := by rw [hueq]
        have hk : u.key = u₀.key := by rw [hueq]
        rw [hb, hk]
        exact ⟨j, body, hold _ _ _ _ hc, hop, hch⟩
  · intro bucket key
    dsimp only
    cases ht : r.target with
    | none =>
      rw [hstep.objects_eq ht]
      exact hI.objects bucket key
    | some t =>
      obtain ⟨b, k⟩ := t
      obtain ⟨x, hx, hwrote⟩ := hI.installs hr hq hs ht
      rw [hx]
      by_cases hbk : (bucket, key) = (b, k)
      · cases hbk
        rw [Function.update_self]
        exact Or.inr ⟨i, _, hq, hwrote⟩
      · rw [Function.update_of_ne hbk]
        exact hI.objects bucket key

end

/-- **What is stored, in every run.** -/
theorem intact_run (hr : Run World.Step (S.world objects) l w) : Intact S objects w := by
  refine hr.history (I := fun _ w => Intact S objects w) ⟨?_, ?_, ?_, ?_⟩ ?_
  · exact fun i bucket key uid ⟨n, hn⟩ => absurd hn List.not_mem_nil
  · exact fun i j bucket bucket' key key' uid ⟨n, hn⟩ => absurd hn List.not_mem_nil
  · exact fun uid u hu => nomatch hu
  · exact fun bucket key => Or.inl rfl
  intro l w x t hr hI hs
  cases hs with
  | @call i a t hs ha =>
    refine ⟨hI.used, hI.single, hI.parts, fun bucket key => ?_⟩
    rcases hI.objects bucket key with h | ⟨j, e, he, hw⟩
    · exact Or.inl h
    · refine Or.inr ⟨j, e, ?_, hw⟩
      dsimp only
      rw [(hs.trace_eq j).1]
      exact List.mem_append_right _ he
  | serve hq hserve => exact hI.serve hr hq hserve

/-- **Writes are all or nothing, and never mix.** At every moment an object is what it was at first, or
gone, or the whole body of one `put_object`. One that has returned a success had its whole body there
while it ran. -/
theorem writes_whole (S : Setup κ ι) (objects : String × String → Option Bytes)
    (hr : Run World.Step (S.world objects) l w) :
    (∀ bucket key, w.store.objects (bucket, key) = objects (bucket, key) ∨
      w.store.objects (bucket, key) = none ∨
      ∃ i body, S.op i = .put key body ∧ (S.client i).config.bucket = bucket ∧
        (w.sys.procs i).started = true ∧ w.store.objects (bucket, key) = some body.data) ∧
    ∀ i key body v, S.op i = .put key body → (w.sys.procs i).mode = .ended (some (.ok v)) →
      ∃ m, Visits (S.world objects) l m ∧ (m.sys.procs i).active = true ∧
        m.store.objects ((S.client i).config.bucket, key) = some body.data := by
  constructor
  · intro bucket key
    rcases (intact_run hr).objects bucket key with h | ⟨i, e, he, hb, ⟨-, h⟩ | ⟨body, hop, h⟩⟩
    · exact Or.inl h
    · exact Or.inr (Or.inl h)
    · exact Or.inr (Or.inr ⟨i, body, hop, hb, started_of_mem hr he, h⟩)
  · intro i key body v hop hm
    obtain ⟨l', hsys⟩ := World.sys_run hr
    have hstored : Stored (S.client i) key body (w.sys.procs i).past := by
      have := (honest_run hsys i).tells hm
      rw [hop] at this
      exact this
    -- the write that has succeeded was served while the call ran
    have hserved : ∀ n (r : Request) (o : r.Output),
        replied n r (.ok o) ∈ (w.sys.procs i).trace →
        r.target = some ((S.client i).config.bucket, key) →
        ∃ m, Visits (S.world objects) l m ∧ (m.sys.procs i).active = true ∧
          m.store.objects ((S.client i).config.bucket, key) = some body.data := by
      intro n r o hrep ht
      obtain ⟨-, l₁, m, m', c, hrm, hv, hsys', hs, hq, hact⟩ := (recorded_run hr).known i n r o hrep
      exact ⟨m', hv, hact, (intact_run hrm).puts hrm hq hs hop ht⟩
    rcases hstored with ⟨n, ck, hrep⟩ | ⟨n, uid, parts, hrep⟩
    · exact hserved n _ _ hrep rfl
    · exact hserved n _ _ hrep rfl

/-! ## A run -/

section

variable {i : ι} {c : Choice} {w' : World κ ι}

theorem World.ask_run (hr : Run World.Step (S.world objects) l w) (h : w.ask c i = some w') :
    ∃ l', Run (fun w x w' => World.Step w x w' ∧ x.by i) w l' w' := by
  obtain ⟨⟨a, t⟩, hgo, heq⟩ := Option.map_eq_some_iff.mp h
  have hs := (Sys.go_step hgo).1
  obtain ⟨l', hsys⟩ := World.sys_run hr
  split at heq
  · rename_i n r x t' heq'
    cases heq'
    have hx : x = ((w.store.serve c r).map fun y => .ok y.1).getD (.error (.other "refused")) :=
      Sys.go_answer hgo
    cases hserve : w.store.serve c r with
    | none =>
      rw [hserve] at heq hx
      cases heq
      exact ⟨_, Run.nil.snoc ⟨.call hs (Or.inl ⟨_, hx⟩), rfl⟩⟩
    | some y =>
      rw [hserve] at heq hx
      cases heq
      have hserved : World.Step w (.serve i n r)
          { w with store := y.2, replies := (i, n, ⟨r, y.1⟩) :: w.replies } :=
        .serve (sent_of_answered hsys hs) hserve
      have hcalled : World.Step { w with store := y.2, replies := (i, n, ⟨r, y.1⟩) :: w.replies }
          (.call i (.code (some (.answered n (Await.http r) x))))
          ⟨t, y.2, (i, n, ⟨r, y.1⟩) :: w.replies⟩ :=
        .call hs (Or.inr ⟨y.1, hx, List.mem_cons_self⟩)
      exact ⟨_, (Run.nil.snoc ⟨hserved, rfl⟩).snoc ⟨hcalled, rfl⟩⟩
  · rename_i a' t' hno heq'
    cases heq'
    cases heq
    refine ⟨_, Run.nil.snoc ⟨.call hs ?_, rfl⟩⟩
    unfold World.Answers
    split
    · exact absurd rfl (hno _ _ _)
    · exact Or.inr (Sys.go_answer hgo)
    · trivial

theorem World.asks_run (n : ℕ) (hr : Run World.Step (S.world objects) l w)
    (h : exec (World.ask c) w (List.replicate n i) = some w') :
    ∃ l', Run (fun w x w' => World.Step w x w' ∧ x.by i) w l' w' := by
  induction n generalizing w l with
  | zero =>
    cases h
    exact ⟨[], .nil⟩
  | succ n ih =>
    obtain ⟨m, hm, h⟩ := Option.bind_eq_some_iff.mp h
    obtain ⟨l₁, h₁⟩ := World.ask_run hr hm
    obtain ⟨l₂, h₂⟩ := ih (hr.append (h₁.imp fun _ _ _ h => h.1)) h
    exact ⟨_, h₁.append h₂⟩

end

/-- An upload, and a download of what it puts. -/
def largeSetup (body : Body) : Setup Unit (Fin 2) :=
  smallSetup fun i => if i = 0 then .put "key" body else .get "key"

/-- An upload of two parts, whatever is in them. -/
theorem largeSetup_put {body : Body} {c₁ c₂ : Bytes}
    (hpath : smallClient.config.multipartThreshold.toNat < body.data.length)
    (hchunks : smallClient.chunks body.data = [(1, c₁), (2, c₂)]) :
    (exec (World.ask (plainChoice "id")) ((largeSetup body).world fun _ => none)
      (List.replicate 48 0)).map (fun w => ((w.sys.procs 0).mode, (w.sys.procs 1).started)) =
      some (.ended (some (.ok .unit)), false) := by
  show (exec (World.ask (plainChoice "id")) ⟨⟨_, fun i : Fin 2 => ⟨.fresh (Op.program smallClient
    (if i = 0 then .put "key" body else .get "key")), [], 0, 0, []⟩⟩, _, _⟩ _).map _ = _
  -- the program of the upload depends on the body by its chunks alone
  simp only [apply_ite (Op.program smallClient)]
  simp only [Op.program, S3Client.putObject, S3Client.multipartPut, if_pos hpath, hchunks]
  rfl

theorem large_chunks : smallClient.chunks largeBody.data =
    [(1, slice largeBody.data (0, 8388608)), (2, slice largeBody.data (8388608, 8388609))] := by
  unfold S3Client.chunks
  rw [largeBody_length]
  rfl

/-- A run of the upload, in which the download does not start. -/
theorem largeSetup_run : ∃ l w,
    Run (fun w x w' => World.Step w x w' ∧ x.by 0) ((largeSetup largeBody).world fun _ => none) l w ∧
      (w.sys.procs 0).mode = .ended (some (.ok .unit)) ∧ (w.sys.procs 1).started = false := by
  obtain ⟨w, hw, hv⟩ := Option.map_eq_some_iff.mp (largeSetup_put large_path large_chunks)
  obtain ⟨hm, hfresh⟩ := Prod.mk.inj hv
  obtain ⟨l, hr⟩ := World.asks_run 48 .nil hw
  exact ⟨l, w, hr, hm, hfresh⟩

/-- An upload of two parts stores its body. -/
theorem writes_whole_large : ∃ l w, Run World.Step ((largeSetup largeBody).world fun _ => none) l w ∧
    ∃ m, Visits ((largeSetup largeBody).world fun _ => none) l m ∧ (m.sys.procs 0).active = true ∧
      m.store.objects ("bucket", "key") = some largeBody.data := by
  obtain ⟨l, w, hr, hm, -⟩ := largeSetup_run
  have hrun := hr.imp fun _ _ _ h => h.1
  exact ⟨l, w, hrun, (writes_whole _ _ hrun).2 0 "key" largeBody _ rfl hm⟩

end S3o
