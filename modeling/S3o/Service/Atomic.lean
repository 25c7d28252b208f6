import S3o.Lts.Atomic
import S3o.Service.Outline
import S3o.Service.Read

/-!
# The store as one sequential object

Calls of any clients overlap, and an upload of many parts or a download of many ranges takes many
requests. When the service serves no request twice, and no object above the threshold of a download
changes while the download runs, every call takes effect at one instant between its start and its return.

* `Setup.Does`: what the operations do, one after the other;
* `World.Once`, `Setup.Undisturbed`: what is asked of the service and of the other writers;
* `Setup.lands`, `Setup.effect`, `Setup.point`: the request at which a call takes effect, and how;
* `Landed`, **`landed_run`**: a call has received the reply of a serving while it ran;
* `Op.Settled`, `op_settled`: what a success stands for;
* **`linearizable`**: the operations are linearizable.
-/

namespace S3o

open Async Lts

variable {κ ι : Type}

/-- `stat`'s metadata of a HEAD. -/
def S3Client.metadata (self : S3Client κ) (out : HeadObjectOutput) : ObjectMetadata where
  contentLength := asU64 (out.contentLength.getD 0)
  contentType := out.contentType
  etag := out.eTag
  lastModified := out.lastModified.bind self.chrono

/-- **What the operations do to the objects and return**, when they are made one after the other. -/
inductive Setup.Does (S : Setup κ ι) (m : String × String → Option Bytes) :
    ι × Value → (String × String → Option Bytes) → Prop
  | put {i key body} : S.op i = .put key body →
      Does S m (i, .unit) (Function.update m ((S.client i).config.bucket, key) (some body.data))
  | delete {i key} : S.op i = .delete key →
      Does S m (i, .unit) (Function.update m ((S.client i).config.bucket, key) none)
  | get {i key d} : S.op i = .get key → m ((S.client i).config.bucket, key) = some d →
      Does S m (i, .data d) m
  | head {i key d info} : S.op i = .head key → m ((S.client i).config.bucket, key) = some d →
      info.contentLength = d.length → Does S m (i, .metadata info) m

/-- The call has returned a success, and is not a listing. -/
def Setup.Returned (S : Setup κ ι) (w : World κ ι) (i : ι) (v : Value) : Prop :=
  (w.sys.procs i).mode = .ended (some (.ok v)) ∧ ∀ pfx recursive, S.op i ≠ .list pfx recursive

/-- The request of a reply is the one at which its call takes effect. -/
def Setup.lands (S : Setup κ ι) : (ι × ℕ × Σ r : Request, r.Output) → Bool
  | (i, _, ⟨.headObject _ _, out⟩) =>
    match S.op i with
    | .head _ => true
    | _ => decide ((S.client i).config.multipartThreshold.toNat < asU64 (out.contentLength.getD 0))
  | (_, _, ⟨r, _⟩) => r.lands

/-- What the call of a reply does then, on the objects. -/
def Setup.effect (S : Setup κ ι) (objects : String × String → Option Bytes) :
    (ι × ℕ × Σ r : Request, r.Output) → Option (ι × Value)
  | (i, _, ⟨.putObject .., _⟩) | (i, _, ⟨.deleteObject .., _⟩)
  | (i, _, ⟨.completeMultipartUpload .., _⟩) => some (i, .unit)
  | (i, _, ⟨.getObject _ _ none, out⟩) => some (i, .data out.body)
  | (i, _, ⟨.headObject bucket key, out⟩) =>
    match S.op i with
    | .head _ => some (i, .metadata ((S.client i).metadata out))
    | _ =>
      if (S.client i).config.multipartThreshold.toNat < asU64 (out.contentLength.getD 0) then
        (objects (bucket, key)).map fun d => (i, .data d)
      else none
  | _ => none

/-- The effect of a step. -/
def Setup.point (S : Setup κ ι) : World.Label κ ι × World κ ι → Option (ι × Value)
  | (.serve .., w) => w.replies.head?.bind (S.effect w.store.objects)
  | (.call .., _) => none

theorem Setup.effect_lands {S : Setup κ ι} {objects : String × String → Option Bytes}
    {y : ι × ℕ × Σ r : Request, r.Output} {x : ι × Value} (h : S.effect objects y = some x) :
    x.1 = y.1 ∧ S.lands y = true := by
  obtain ⟨i, n, r, o⟩ := y
  cases r with
  | putObject => cases h; exact ⟨rfl, rfl⟩
  | deleteObject => cases h; exact ⟨rfl, rfl⟩
  | completeMultipartUpload => cases h; exact ⟨rfl, rfl⟩
  | getObject bucket key range =>
    cases range with
    | none => cases h; exact ⟨rfl, rfl⟩
    | some range => cases h
  | headObject bucket key =>
    unfold Setup.effect at h
    unfold Setup.lands
    dsimp only at h ⊢
    cases hop : S.op i with
    | head k =>
      rw [hop] at h
      cases h
      exact ⟨rfl, rfl⟩
    | _ =>
      rw [hop] at h
      dsimp only at h ⊢
      split_ifs at h with hlt
      obtain ⟨d, -, rfl⟩ := Option.map_eq_some_iff.mp h
      exact ⟨rfl, decide_eq_true hlt⟩
  | _ => cases h

variable [DecidableEq κ] [DecidableEq ι] {S : Setup κ ι} {w w₀ w' : World κ ι}
  {l : List (World.Label κ ι × World κ ι)} {objects : String × String → Option Bytes}

/-- **A step of a world whose service serves no request twice.** -/
def World.Once (w : World κ ι) (x : World.Label κ ι) (w' : World κ ι) : Prop :=
  World.Step w x w' ∧ ∀ i n r, x = .serve i n r → (i, n) ∉ w.replies.map fun y => (y.1, y.2.1)

/-- While a download runs, an object above its threshold has one content. -/
def Setup.Undisturbed (S : Setup κ ι) (w₀ : World κ ι) (l : List (World.Label κ ι × World κ ι)) :
    Prop :=
  ∀ i key d d', S.op i = .get key → Moment w₀ l i (S.client i).config.bucket key d →
    (S.client i).config.multipartThreshold.toNat < d.length →
    Moment w₀ l i (S.client i).config.bucket key d' → d' = d

theorem Once.run (h : Run World.Once w₀ l w) : Run World.Step w₀ l w := h.imp fun _ _ _ h => h.1

/-! ## What a success stands for -/

/-- **What a success stands for**: the replies that made it, and the value it returns. -/
def Op.Settled (self : S3Client κ) (op : Op) (past : Set (Ev (S3 κ))) (v : Value) : Prop :=
  match op with
  | .put key body => v = .unit ∧ Stored self key body past
  | .get key => ∃ d, v = .data d ∧ Fetched self key past d
  | .delete key => v = .unit ∧ ∃ n, replied n (.deleteObject self.config.bucket key) (.ok ()) ∈ past
  | .head key => ∃ n out, replied n (.headObject self.config.bucket key) (.ok out) ∈ past ∧
    v = .metadata (self.metadata out)
  | .list _ _ => True

section

variable {self : S3Client κ} {g : Set (Ev (S3 κ))}

omit [DecidableEq κ] in
theorem put_settled (key : String) (body : Body) :
    ((Op.put key body).program self).Safe (ledger self (.put key body))
      (fun g r => ∀ v, r = .ok v → (Op.put key body).Settled self g v) g := by
  have hput : ((Op.put key body).program self).Safe (ledger self (.put key body))
      ((Op.put key body).Result self) g := op_ledger (.put key body)
  unfold Op.program at hput ⊢
  simp only [Prog.bind_eq, Prog.pure_eq, Prog.safe_bind, Prog.safe_ret] at hput ⊢
  refine Prog.safe_weaken (fun g r hr v hv => ?_) _ _ hput
  cases r with
  | error e => cases hv
  | ok u =>
    cases hv
    exact ⟨rfl, hr⟩

omit [DecidableEq κ] in
theorem get_settled (key : String) : ((Op.get key).program self).Safe (ledger self (.get key))
    (fun g r => ∀ v, r = .ok v → (Op.get key).Settled self g v) g := by
  refine Prog.safe_weaken (fun g r hr v hv => ?_) _ _ (op_ledger (.get key))
  subst hv
  exact hr

omit [DecidableEq κ] in
theorem delete_settled (key : String) : ((Op.delete key).program self).Safe (ledger self (.delete key))
    (fun g r => ∀ v, r = .ok v → (Op.delete key).Settled self g v) g := by
  unfold Op.program S3Client.deleteObject
  simp only [Prog.bind_eq, Prog.pure_eq, Prog.safe_bind, Prog.safe_ret, safe_startOp]
  refine fun t => ⟨trivial, guarded_ledger ?_ (fun g' _ => ?_) fun e v hv => ?_⟩
  · rintro g g' r hg hr v hv
    obtain ⟨hval, n, hn⟩ := hr v hv
    exact ⟨hval, n, hg hn⟩
  · simp only [Prog.safe_bind, Prog.safe_ret]
    refine send_ledger ⟨rfl, rfl⟩ fun n x => finish_ledger _ fun g'' hg v hv => ?_
    cases x with
    | error e => cases hv
    | ok u =>
      cases hv
      exact ⟨rfl, n, hg (Set.mem_insert _ _)⟩
  · cases hv

/-- What the metadata that `stat` returns were made from. -/
def Examined (self : S3Client κ) (key : String) (past : Set (Ev (S3 κ)))
    (r : S3Result ObjectMetadata) : Prop :=
  ∀ info, r = .ok info → ∃ n out, replied n (.headObject self.config.bucket key) (.ok out) ∈ past ∧
    info = self.metadata out

omit [DecidableEq κ] in
theorem Examined.mono {key : String} (g g' : Set (Ev (S3 κ))) (r : S3Result ObjectMetadata)
    (h : g ⊆ g') (hr : Examined self key g r) : Examined self key g' r := by
  intro info hinfo
  obtain ⟨n, out, hn, heq⟩ := hr info hinfo
  exact ⟨n, out, h hn, heq⟩

omit [DecidableEq κ] in
theorem stat_examined (key : String) :
    (self.stat key).Safe (ledger self (.head key)) (Examined self key) g := by
  refine guarded_ledger Examined.mono (fun g' _ => ?_) fun e => nofun
  simp only [Prog.bind_eq, Prog.pure_eq, Prog.safe_bind, Prog.safe_ret]
  refine send_ledger ⟨Or.inr rfl, rfl⟩ fun n x info hinfo => ?_
  cases x with
  | error e => cases hinfo
  | ok out =>
    cases hinfo
    exact ⟨n, out, Set.mem_insert _ _, rfl⟩

omit [DecidableEq κ] in
theorem head_settled (key : String) : ((Op.head key).program self).Safe (ledger self (.head key))
    (fun g r => ∀ v, r = .ok v → (Op.head key).Settled self g v) g := by
  unfold Op.program S3Client.headObject
  simp only [Prog.bind_eq, Prog.pure_eq, Prog.safe_bind, Prog.safe_ret, safe_startOp]
  refine fun t => ⟨trivial, Prog.safe_weaken (fun g' r hr => ?_) _ _ (stat_examined key)⟩
  refine finish_ledger r fun g'' hg v hv => ?_
  cases r with
  | error e => cases hv
  | ok info =>
    obtain ⟨n, out, hn, rfl⟩ := hr info rfl
    cases hv
    exact ⟨n, out, hg hn, rfl⟩

omit [DecidableEq κ] in
theorem op_settled (op : Op) : (op.program self).Safe (ledger self op)
    (fun g r => ∀ v, r = .ok v → op.Settled self g v) g := by
  cases op with
  | put key body => exact put_settled key body
  | get key => exact get_settled key
  | delete key => exact delete_settled key
  | head key => exact head_settled key
  | list pfx recursive => exact Prog.safe_weaken (fun _ _ _ _ _ => trivial) _ _ (op_ledger _)

end

/-- **What a success stands for, in every run.** -/
theorem settled_run {s : Sys κ ι} {l : List ((ι × Act κ) × Sys κ ι)} (h : Run Sys.Step S.init l s)
    {i : ι} {v : Value} (hm : (s.procs i).mode = .ended (some (.ok v))) :
    (S.op i).Settled (S.client i) (s.procs i).past v := by
  have hresult := (watched_run (op_settled (g := ∅) (S.op i)) h).result hm
  rw [Monitor.exec_memory] at hresult
  exact hresult v rfl

/-! ## The servings of the replies -/

/-- Request `r`, question `n` of call `i`, was served with the reply `o` while the call ran: the step is in
the run, from `m` to `m'`. -/
def Landed (w₀ : World κ ι) (l : List (World.Label κ ι × World κ ι)) (i : ι) (n : ℕ) (r : Request)
    (o : r.Output) : Prop :=
  ∃ l₁ m m' c, Run World.Step w₀ l₁ m ∧ (World.Label.serve i n r, m') ∈ l ∧
    m.store.serve c r = some (o, m'.store) ∧ m'.replies = (i, n, ⟨r, o⟩) :: m.replies ∧
    (m'.sys.procs i).active = true

theorem Landed.cons {i : ι} {n : ℕ} {r : Request} {o : r.Output} {x : World.Label κ ι × World κ ι}
    (h : Landed w₀ l i n r o) : Landed w₀ (x :: l) i n r o := by
  obtain ⟨l₁, m, m', c, hr, hm, h⟩ := h
  exact ⟨l₁, m, m', c, hr, List.mem_cons_of_mem _ hm, h⟩

/-- **A reply that a call has received, or still can receive, was given by a step of the run while the
call ran.** -/
theorem landed_run (h : Run World.Step (S.world objects) l w) {i : ι} {n : ℕ} {r : Request}
    {o : r.Output} (hm : (i, n, ⟨r, o⟩) ∈ w.replies)
    (hi : (w.sys.procs i).hasEnded = false ∨ replied n r (.ok o) ∈ (w.sys.procs i).trace) :
    Landed (S.world objects) l i n r o := by
  induction h with
  | nil => exact absurd hm List.not_mem_nil
  | @snoc l w x t hr hs ih =>
    cases hs with
    | @call j a t hs ha =>
      refine (ih hm ?_).cons
      rcases hi with hi | hi
      · left
        by_contra he
        rw [(hs.trace_eq i).2 (by simpa using he)] at hi
        exact he hi
      · rcases hs.mem_trace hi with hi | ⟨rfl, rfl⟩
        · exact Or.inr hi
        · have hact := (hs.event_active rfl).1
          unfold Proc.active at hact
          exact Or.inl (by simpa using (Bool.and_eq_true_iff.mp hact).2)
    | @serve j n' r' c o' σ hq hserve =>
      by_cases hrep : replied n r (.ok o) ∈ (w.sys.procs i).trace
      · exact (ih ((recorded_run hr).known i n r o hrep).1 (Or.inr hrep)).cons
      · have hend : (w.sys.procs i).hasEnded = false := hi.resolve_right hrep
        rcases List.mem_cons.mp hm with heq | hm
        · cases heq
          refine ⟨l, w, _, c, hr, List.mem_cons_self, hserve, rfl, ?_⟩
          unfold Proc.active
          rw [started_of_mem hr hq, hend]
          rfl
        · exact (ih hm (Or.inl hend)).cons

/-! ## The effect of a serving -/

omit [DecidableEq κ] [DecidableEq ι] in
theorem Setup.Wrote.does {i : ι} {bucket key : String} {x : Option Bytes} (h : S.Wrote i bucket key x)
    (m : String × String → Option Bytes) : S.Does m (i, .unit) (Function.update m (bucket, key) x) := by
  obtain ⟨rfl, ⟨hop, rfl⟩ | ⟨body, hop, rfl⟩⟩ := h
  · exact .delete hop
  · exact .put hop

/-- **A serving does what the operation of its call does, or leaves the objects alone.** -/
theorem effect_does (hr : Run World.Step (S.world objects) l w) {i : ι} {n : ℕ} {r : Request}
    {c : Choice} {o : r.Output} {σ : Store} (hq : requested n r ∈ (w.sys.procs i).trace)
    (hs : w.store.serve c r = some (o, σ)) :
    Affects S.Does w.store.objects (S.effect σ.objects (i, n, ⟨r, o⟩)) σ.objects := by
  have hhon := honest_request hr hq
  -- a request that writes an object
  have hwrite : ∀ {bucket key}, r.target = some (bucket, key) →
      S.Does w.store.objects (i, .unit) σ.objects := by
    intro bucket key ht
    obtain ⟨x, hx, hwrote⟩ := (intact_run hr).installs hr hq hs ht
    rw [hx]
    exact hwrote.does _
  have hread := (Store.serve_step hs).objects_eq
  cases r with
  | putObject bucket key d ck => exact hwrite rfl
  | deleteObject bucket key => exact hwrite rfl
  | completeMultipartUpload bucket key uid parts => exact hwrite rfl
  | getObject bucket key range =>
    cases range with
    | some range => exact hread rfl
    | none =>
      obtain ⟨hop, rfl⟩ := hhon
      obtain ⟨d, hd, hbody⟩ := serve_get hs
      show S.Does _ (i, .data o.body) _
      rw [hread rfl, hbody]
      exact .get hop hd
  | headObject bucket key =>
    obtain ⟨hop, rfl⟩ := hhon
    obtain ⟨d, hd, hlen, hout⟩ := serve_head hs
    have htotal : asU64 (o.contentLength.getD 0) = d.length := by
      rw [hout, Option.getD_some, asU64_length hlen]
    unfold Setup.effect
    dsimp only
    rw [hread rfl]
    rcases hop with hop | hop
    · rw [hop]
      dsimp only
      split_ifs with hlt
      · rw [hd]
        exact .get hop hd
      · rfl
    · rw [hop]
      exact .head hop hd htotal
  | listObjectsV2 => exact hread rfl
  | createMultipartUpload => exact hread rfl
  | uploadPart => exact hread rfl
  | abortMultipartUpload => exact hread rfl

/-- **A step has the effect of its point.** -/
theorem point_does (hr : Run World.Step (S.world objects) l w) {x : World.Label κ ι}
    (hs : World.Step w x w') :
    Affects S.Does w.store.objects (S.point (x, w')) w'.store.objects := by
  cases hs with
  | call hs ha => rfl
  | serve hq hserve => exact effect_does hr hq hserve

omit [DecidableEq κ] [DecidableEq ι] in
theorem effect_of_lands {σ : Store} {c : Choice} {r : Request} {o : r.Output} {i : ι} {n : ℕ}
    {σ' : Store} (hs : σ.serve c r = some (o, σ')) (hl : S.lands (i, n, ⟨r, o⟩) = true) :
    ∃ v, S.effect σ'.objects (i, n, ⟨r, o⟩) = some (i, v) := by
  cases r with
  | putObject => exact ⟨_, rfl⟩
  | deleteObject => exact ⟨_, rfl⟩
  | completeMultipartUpload => exact ⟨_, rfl⟩
  | getObject bucket key range =>
    cases range with
    | some range => cases hl
    | none => exact ⟨_, rfl⟩
  | headObject bucket key =>
    obtain ⟨d, hd, -, -⟩ := serve_head hs
    have hobj := (Store.serve_step hs).objects_eq rfl
    unfold Setup.lands at hl
    unfold Setup.effect
    dsimp only at hl ⊢
    cases hop : S.op i with
    | head k => exact ⟨_, rfl⟩
    | _ =>
      rw [hop] at hl
      dsimp only
      rw [if_pos (of_decide_eq_true hl), hobj, hd]
      exact ⟨_, rfl⟩
  | _ => cases hl

/-! ## Every call lands at most once -/

theorem points_sublist (h : Run World.Step (S.world objects) l w) :
    ((l.filterMap S.point).map Prod.fst).Sublist ((w.replies.filter S.lands).map Prod.fst) := by
  induction h with
  | nil => exact List.Sublist.refl _
  | @snoc l w x t hr hs ih =>
    cases hs with
    | call hs ha => exact ih
    | @serve i n r c o σ hq hserve =>
      rw [List.filterMap_cons, List.filter_cons]
      have hpoint : S.point (World.Label.serve i n r,
          { w with store := σ, replies := (i, n, ⟨r, o⟩) :: w.replies }) =
          S.effect σ.objects (i, n, ⟨r, o⟩) := rfl
      rw [hpoint]
      cases he : S.effect σ.objects (i, n, ⟨r, o⟩) with
      | none =>
        dsimp only
        split_ifs
        · exact ih.cons _
        · exact ih
      | some y =>
        obtain ⟨hy, hl⟩ := Setup.effect_lands he
        rw [if_pos hl, List.map_cons, List.map_cons, hy]
        exact ih.cons_cons _

theorem once_keys (h : Run World.Once (S.world objects) l w) :
    (w.replies.map fun y => (y.1, y.2.1)).Nodup := by
  refine h.invariant (I := fun w => (w.replies.map fun y => (y.1, y.2.1)).Nodup) List.nodup_nil ?_
  rintro w x t hI ⟨hs, honce⟩
  cases hs with
  | call hs ha => exact hI
  | serve hq hserve => exact List.nodup_cons.mpr ⟨honce _ _ _ rfl, hI⟩

omit [DecidableEq κ] [DecidableEq ι] in
/-- A reply lands at a request at which its call takes effect, or at a HEAD. -/
theorem lands_cases {i : ι} {n : ℕ} {r : Request} {o : r.Output} (h : S.lands (i, n, ⟨r, o⟩) = true) :
    r.lands = true ∨ ∃ bucket key, r = .headObject bucket key := by
  cases r with
  | headObject bucket key => exact Or.inr ⟨bucket, key, rfl⟩
  | _ => exact Or.inl h

omit [DecidableEq κ] [DecidableEq ι] in
theorem asked_mem {τ : List (Ev (S3 κ))} {n : ℕ} {r : Request} (h : requested n r ∈ τ)
    (hr : r.single = true) : .asked n r ∈ τ.filterMap waypoint :=
  List.mem_filterMap.mpr ⟨_, h, by simp [waypoint, hr]⟩

omit [DecidableEq κ] [DecidableEq ι] in
theorem measured_mem {τ : List (Ev (S3 κ))} {total : ℕ} (h : .measured total ∈ τ.filterMap waypoint) :
    ∃ n bucket key out, replied n (.headObject bucket key) (.ok out) ∈ τ ∧
      total = asU64 (out.contentLength.getD 0) := by
  obtain ⟨e, he, h⟩ := List.mem_filterMap.mp h
  unfold waypoint at h
  split at h
  · split_ifs at h
    cases h
  · cases h
    exact ⟨_, _, _, _, he, rfl⟩
  · cases h
  · cases h

omit [DecidableEq κ] [DecidableEq ι] in
theorem single_of_lands {r : Request} (h : r.lands = true) : r.single = true := by
  cases r with
  | getObject bucket key range =>
    cases range with
    | none => rfl
    | some range => cases h
  | _ => first | rfl | cases h

/-- **A HEAD lands only when nothing else does**: a download that goes on to read the whole object was
told a length that is not above its threshold. -/
theorem head_lands_alone (h : Run World.Once (S.world objects) l w) {i : ι} {n n' : ℕ} {r : Request}
    {o : r.Output} {bucket key : String} {out : HeadObjectOutput} (hm : (i, n, ⟨r, o⟩) ∈ w.replies)
    (hm' : (i, n', ⟨.headObject bucket key, out⟩) ∈ w.replies) (hr : r.lands = true)
    (hl : S.lands (i, n', ⟨.headObject bucket key, out⟩) = true) : False := by
  have hs := Once.run h
  obtain ⟨l', hsys⟩ := World.sys_run hs
  have hq := (recorded_run hs).asked i n r o hm
  have hq' := (recorded_run hs).asked i n' (.headObject bucket key) out hm'
  have ho := outline_run hsys i
  obtain ⟨total, hle, htotal⟩ :=
    ho.plain_le (asked_mem hq' rfl) (asked_mem hq (single_of_lands hr)) hr
  obtain ⟨n₀, bucket₀, key₀, out₀, hrep, rfl⟩ := measured_mem htotal
  have hm₀ := ((recorded_run hs).known i n₀ (.headObject bucket₀ key₀) out₀ hrep).1
  have hhead := (recorded_run hs).asked i n₀ (.headObject bucket₀ key₀) out₀ hm₀
  obtain rfl := ho.head_eq (asked_mem hq' rfl) (asked_mem hhead rfl)
  -- the only reply to the HEAD
  have heq := List.inj_on_of_nodup_map (once_keys h) hm' hm₀ rfl
  cases heq
  have hhon := honest_request hs hq
  unfold Setup.lands at hl
  dsimp only at hl
  cases hop : S.op i with
  | head k =>
    rw [hop] at hhon
    cases r with
    | putObject =>
      obtain ⟨body, hput, -⟩ := hhon
      cases hput
    | completeMultipartUpload =>
      obtain ⟨body, hput, -⟩ := hhon
      cases hput
    | deleteObject => cases hhon.1
    | getObject => cases hhon.1
    | _ => cases hr
  | _ =>
    rw [hop] at hl
    exact absurd (of_decide_eq_true hl) (Nat.not_lt.mpr hle)

/-- **A call lands with one question.** -/
theorem lands_once (h : Run World.Once (S.world objects) l w) {i : ι} {n n' : ℕ} {r r' : Request}
    {o : r.Output} {o' : r'.Output} (hm : (i, n, ⟨r, o⟩) ∈ w.replies)
    (hm' : (i, n', ⟨r', o'⟩) ∈ w.replies) (hl : S.lands (i, n, ⟨r, o⟩) = true)
    (hl' : S.lands (i, n', ⟨r', o'⟩) = true) : n = n' := by
  have hs := Once.run h
  obtain ⟨l', hsys⟩ := World.sys_run hs
  have ho := outline_run hsys i
  have hq := (recorded_run hs).asked i n r o hm
  have hq' := (recorded_run hs).asked i n' r' o' hm'
  rcases lands_cases hl with hr | ⟨bucket, key, rfl⟩
  · rcases lands_cases hl' with hr' | ⟨bucket', key', rfl⟩
    · exact (ho.lands_eq (asked_mem hq (single_of_lands hr)) (asked_mem hq' (single_of_lands hr'))
        hr hr').1
    · exact (head_lands_alone h hm hm' hr hl').elim
  · rcases lands_cases hl' with hr' | ⟨bucket', key', rfl⟩
    · exact (head_lands_alone h hm' hm hr' hl).elim
    · exact ho.head_eq (asked_mem hq rfl) (asked_mem hq' rfl)

/-- **Every call takes effect at most once.** -/
theorem points_nodup (h : Run World.Once (S.world objects) l w) :
    ((l.filterMap S.point).map Prod.fst).Nodup := by
  refine (points_sublist (Once.run h)).nodup ?_
  refine List.Nodup.map_on ?_ ((once_keys h).of_map.filter _)
  rintro ⟨i, n, r, o⟩ hy ⟨i', n', r', o'⟩ hy' rfl
  obtain ⟨hm, hl⟩ := List.mem_filter.mp hy
  obtain ⟨hm', hl'⟩ := List.mem_filter.mp hy'
  obtain rfl := lands_once h hm hm' hl hl'
  exact List.inj_on_of_nodup_map (once_keys h) hm hm' rfl

/-! ## A call that has returned has taken effect -/

/-- **A reply that was received and lands is a point of the run**, while the call ran. -/
theorem point_of_known (h : Run World.Step (S.world objects) l w) {i : ι} {n : ℕ} {r : Request}
    {o : r.Output} (hrep : replied n r (.ok o) ∈ (w.sys.procs i).trace)
    (hl : S.lands (i, n, ⟨r, o⟩) = true) :
    ∃ (v : Value) (m m' : World κ ι) (c : Choice), (i, v) ∈ l.filterMap S.point ∧
      S.effect m'.store.objects (i, n, ⟨r, o⟩) = some (i, v) ∧
      m.store.serve c r = some (o, m'.store) ∧ Visits (S.world objects) l m' ∧
      (m'.sys.procs i).active = true := by
  obtain ⟨l₁, m, m', c, -, hmem, hserve, hreplies, hact⟩ :=
    landed_run h ((recorded_run h).known i n r o hrep).1 (Or.inr hrep)
  obtain ⟨v, hv⟩ := effect_of_lands (i := i) (n := n) hserve hl
  have hpoint : S.point (.serve i n r, m') = some (i, v) := by
    show m'.replies.head?.bind (S.effect m'.store.objects) = some (i, v)
    rw [hreplies]
    exact hv
  exact ⟨v, m, m', c, List.mem_filterMap.mpr ⟨_, hmem, hpoint⟩, hv, hserve,
    Or.inr (List.mem_map_of_mem hmem), hact⟩

omit [DecidableEq κ] [DecidableEq ι] in
theorem ReadFrom.eq {i : ι} {key : String} {d body : Bytes} (h : ReadFrom S w₀ l i key d)
    (hbody : ∀ d', Moment w₀ l i (S.client i).config.bucket key d' → d' = body) : d = body := by
  rcases h with hmom | ⟨d₀, v, hd₀, hlen, -, hv, rfl⟩
  · exact hbody d hmom
  · obtain rfl := hbody d₀ hd₀
    exact assembled_self (chunkSize_pos _) (UInt64.toNat_lt _) hlen fun j hj => hbody _ (hv j hj)

/-- **A download has taken effect**, at its GET or, when the object is read in ranges, at its HEAD. -/
theorem fetched_point (h : Run World.Step (S.world objects) l w)
    (hu : S.Undisturbed (S.world objects) l) {i : ι} {key : String} (hop : S.op i = .get key) {d : Bytes}
    (hf : Fetched (S.client i) key (w.sys.procs i).past d) : (i, .data d) ∈ l.filterMap S.point := by
  have hread := hf.readFrom h
  rcases hf with ⟨n, n', out, hrep, hcol⟩ | ⟨n, out, hrep, hlt, -⟩
  · obtain ⟨v, m, m', c, hmem, hv, -⟩ := point_of_known h hrep rfl
    cases hv
    rw [(recorded_run h).whole i n' _ _ hcol]
    exact hmem
  · have hl : S.lands (i, n, ⟨.headObject (S.client i).config.bucket key, out⟩) = true := by
      unfold Setup.lands
      dsimp only
      rw [hop]
      exact decide_eq_true hlt
    obtain ⟨v, m, m', c, hmem, hv, hserve, hvis, hact⟩ := point_of_known h hrep hl
    obtain ⟨d₀, hd₀, hlen, hout⟩ := serve_head hserve
    rw [← (Store.serve_step hserve).objects_eq rfl] at hd₀
    unfold Setup.effect at hv
    dsimp only at hv
    rw [hop] at hv
    dsimp only at hv
    rw [if_pos hlt, hd₀] at hv
    cases hv
    rw [hout, Option.getD_some, asU64_length hlen] at hlt
    have hconst : d = d₀ := hread.eq fun d' hd' =>
      hu i key d₀ d' hop ⟨m', hvis, hact, hd₀⟩ hlt hd'
    rw [hconst]
    exact hmem

/-- **A call that has returned a success has taken effect**, with what it has returned. -/
theorem returned_point (h : Run World.Step (S.world objects) l w)
    (hu : S.Undisturbed (S.world objects) l) {i : ι} {v : Value} (hret : S.Returned w i v) :
    (i, v) ∈ l.filterMap S.point := by
  obtain ⟨hm, hlist⟩ := hret
  obtain ⟨l', hsys⟩ := World.sys_run h
  have hset := settled_run hsys hm
  cases hop : S.op i with
  | put key body =>
    rw [hop] at hset
    obtain ⟨rfl, ⟨n, c, hrep⟩ | ⟨n, uid, parts, hrep⟩⟩ := hset
    · obtain ⟨v, m, m', c, hmem, hv, -⟩ := point_of_known h hrep rfl
      cases hv
      exact hmem
    · obtain ⟨v, m, m', c, hmem, hv, -⟩ := point_of_known h hrep rfl
      cases hv
      exact hmem
  | get key =>
    rw [hop] at hset
    obtain ⟨d, rfl, hf⟩ := hset
    exact fetched_point h hu hop hf
  | delete key =>
    rw [hop] at hset
    obtain ⟨rfl, n, hrep⟩ := hset
    obtain ⟨v, m, m', c, hmem, hv, -⟩ := point_of_known h hrep rfl
    cases hv
    exact hmem
  | head key =>
    rw [hop] at hset
    obtain ⟨n, out, hrep, rfl⟩ := hset
    have hl : S.lands (i, n, ⟨.headObject (S.client i).config.bucket key, out⟩) = true := by
      unfold Setup.lands
      dsimp only
      rw [hop]
    obtain ⟨v, m, m', c, hmem, hv, -⟩ := point_of_known h hrep hl
    unfold Setup.effect at hv
    dsimp only at hv
    rw [hop] at hv
    cases hv
    exact hmem
  | list pfx recursive => exact absurd hop (hlist pfx recursive)

/-! ## The result -/

omit [DecidableEq κ] [DecidableEq ι] in
theorem Setup.Undisturbed.mono {l₁ : List (World.Label κ ι × World κ ι)} (hl : l₁ <:+ l)
    (h : S.Undisturbed w₀ l) : S.Undisturbed w₀ l₁ := by
  have hmom : ∀ {i bucket key d}, Moment w₀ l₁ i bucket key d → Moment w₀ l i bucket key d :=
    fun ⟨m, hv, hm⟩ => ⟨m, hv.mono hl, hm⟩
  exact fun i key d d' hop hd hlt hd' => h i key d d' hop (hmom hd) hlt (hmom hd')

/-- **The operations are linearizable.** Calls of any clients run at the same time, on any objects. When
the service serves no request twice, and an object above the threshold of a download has one content
while the download runs, there is one order of the calls in which each does and returns what it would
have alone: `put_object` and `delete_object` write, `get_object` and `head_object` read what was written
last. A call takes effect at most once, one that has returned a success took effect with this result, and
a call that had returned before another began comes before it. -/
theorem linearizable (S : Setup κ ι) (objects : String × String → Option Bytes)
    (h : Run World.Once (S.world objects) l w) (hu : S.Undisturbed (S.world objects) l) :
    ∃ e, Linearization S.Does (fun w i => (w.sys.procs i).started = false) S.Returned objects
      (S.world objects) l w e w.store.objects := by
  refine ⟨l.filterMap S.point, h.linearization (f := fun w => w.store.objects) ?_ ?_
    (points_nodup h) ?_⟩
  · exact fun l w x t hr hs => point_does (Once.run hr) hs.1
  · intro l₁ m hr x hx hfresh
    have hmem := (points_sublist (Once.run hr)).subset (List.mem_map_of_mem hx)
    obtain ⟨⟨i, n, r, o⟩, hy, hxy⟩ := List.mem_map.mp hmem
    have hq := (recorded_run (Once.run hr)).asked i n r o (List.mem_filter.mp hy).1
    have hstarted := started_of_mem (Once.run hr) hq
    rw [← hxy] at hfresh
    rw [hfresh] at hstarted
    cases hstarted
  · exact fun l₁ m hr hl i v hret => returned_point (Once.run hr) (hu.mono hl) hret

/-- The world after a command, if it serves no request twice. -/
def World.onceCmd (w : World κ ι) (c : World.Cmd ι) : Option (World κ ι) :=
  (w.next c).bind fun x => match x.1 with
    | .serve i n _ => if (i, n) ∈ w.replies.map fun y => (y.1, y.2.1) then none else some x.2
    | .call .. => some x.2

theorem World.onceCmd_step {w w' : World κ ι} {c : World.Cmd ι} (h : w.onceCmd c = some w') :
    ∃ x, World.Once w x w' := by
  obtain ⟨⟨x, t⟩, hn, h⟩ := Option.bind_eq_some_iff.mp h
  have hs := World.next_step hn
  cases x with
  | call i a =>
    cases h
    exact ⟨_, hs, nofun⟩
  | serve i n r =>
    dsimp only at h
    split_ifs at h with hmem
    cases h
    refine ⟨_, hs, fun i' n' r' heq => ?_⟩
    cases heq
    exact hmem

/-- An upload of a new object, and a download of another. -/
def apartSetup : Setup Unit (Fin 2) :=
  smallSetup fun i => if i = 0 then .put "new" ⟨[7], one_le_isizeMax⟩ else .get "key"

theorem apart_undisturbed {l : List (World.Label Unit (Fin 2) × World Unit (Fin 2))}
    {w : World Unit (Fin 2)} (h : Run World.Step (apartSetup.world oneByte) l w) :
    apartSetup.Undisturbed (apartSetup.world oneByte) l := by
  have hkey : ∀ m, Visits (apartSetup.world oneByte) l m →
      m.store.objects ("bucket", "key") = some [1] := by
    intro m hv
    obtain ⟨l', hm⟩ := h.reach hv
    rcases (intact_run hm).objects "bucket" "key" with hobj | ⟨i, e, -, -, ⟨hop, -⟩ | ⟨body, hop, -⟩⟩
    · exact hobj
    · match i with
      | 0 => cases hop
      | 1 => cases hop
    · match i with
      | 0 =>
        injection hop with hkey
        exact absurd hkey (by decide)
      | 1 => cases hop
  rintro i key d d' hop ⟨m, hv, -, hd⟩ - ⟨m', hv', -, hd'⟩
  obtain rfl : key = "key" := by
    match i with
    | 0 => cases hop
    | 1 =>
      cases hop
      rfl
  have hm := (hkey m hv).symm.trans hd
  have hm' := (hkey m' hv').symm.trans hd'
  exact Option.some.inj (hm'.symm.trans hm)

theorem linearizable_apart : ∃ l w, Run World.Once (apartSetup.world oneByte) l w ∧
    apartSetup.Returned w 0 .unit ∧ apartSetup.Returned w 1 (.data [1]) ∧
    ∃ e, Linearization apartSetup.Does (fun w i => (w.sys.procs i).started = false)
      apartSetup.Returned oneByte (apartSetup.world oneByte) l w e w.store.objects := by
  obtain ⟨w, hw⟩ := Option.isSome_iff_exists.mp
    (show (exec World.onceCmd (apartSetup.world oneByte)
      (measureScript 1 ++ uploadScript 0 "id" ++ rangeScript 1)).isSome = true from rfl)
  have hmodes : (exec World.onceCmd (apartSetup.world oneByte)
      (measureScript 1 ++ uploadScript 0 "id" ++ rangeScript 1)).map
      (fun w => ((w.sys.procs 0).mode, (w.sys.procs 1).mode)) =
      some (.ended (some (.ok .unit)), .ended (some (.ok (.data [1])))) := rfl
  rw [hw] at hmodes
  obtain ⟨hput, hget⟩ := Prod.mk.inj (Option.some.inj hmodes)
  obtain ⟨l, h⟩ := exec_reach (fun _ _ _ => World.onceCmd_step) hw .nil
  exact ⟨l, w, h, ⟨hput, nofun⟩, ⟨hget, nofun⟩,
    linearizable apartSetup oneByte h (apart_undisturbed (Once.run h))⟩

end S3o
