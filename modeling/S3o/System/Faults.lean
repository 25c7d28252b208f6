import S3o.Async.Stream
import S3o.Operations
import S3o.Pieces
import S3o.System.Advance
import S3o.System.History

/-!
# What an error tells

A call stops at the first thing that goes wrong, and returns it. Only the futures of a stream go on, so
that more than one thing can go wrong in a call, and the abort of an upload is not looked at.

* `replyFaults`, `faultsOf`, `faults`: the errors that a reply, an event and a history stand for;
* `Judged`: a result that is an error exactly when there are any, and then one of them;
* `send_judged`, `guarded_judged`, `stream_judged`: the statements of the client;
* **`op_judged`**, **`get_judged`**, **`errors_justified`**: so is the result of every call.
-/

namespace S3o

open Async Lts

variable {κ ι α : Type}

/-- The errors that a reply stands for. -/
def replyFaults : ∀ r : Request, Except SdkError r.Output → List S3Error
  | .createMultipartUpload .., .ok ⟨none⟩ => [.backend .other "no upload_id"]
  | .uploadPart .., .ok ⟨none⟩ => [.backend .other "no etag"]
  | _, .ok _ => []
  | _, .error e => [classify e]

/-- The errors that a body stands for. -/
def bodyFaults (label : String) : Except String Bytes → List S3Error
  | .ok _ => []
  | .error text => [.backend .other s!"{label}: {text}"]

/-- **The errors that an event stands for.** `label` is what the call names the bodies that it reads. -/
def faultsOf (label : String) : Ev (S3 κ) → List S3Error
  | .lost s a => [a.timeoutError s.2.name]
  | .answered _ (Await.http r) x => replyFaults r x
  | .answered _ (Await.collect _) x => bodyFaults label x
  | _ => []

/-- The errors that a history stands for. -/
def faults (label : String) (τ : History (S3 κ)) : List S3Error := τ.events.flatMap (faultsOf label)

/-- **A result that is an error exactly when something has gone wrong**, and then tells what. -/
def Judged (fs : List S3Error) : S3Result α → Prop
  | .ok _ => fs = []
  | .error e => e ∈ fs

section

variable {label : String} {τ τ' : History (S3 κ)} {t n : ℕ} {fs : List S3Error} {r : S3Result α}

theorem Judged.map {β : Type} (f : α → β) (h : Judged fs r) : Judged fs (r.map f) := by
  cases r with
  | ok v => exact h
  | error e => exact h

theorem faults_append : faults label (τ ++ τ') = faults label τ ++ faults label τ' := by
  unfold faults
  rw [History.events_append, List.flatMap_append]

@[simp] theorem faults_event (e : Ev (S3 κ)) :
    faults label ((t, .event e) :: τ) = faultsOf label e ++ faults label τ := rfl

@[simp] theorem faults_read : faults label ((t, .read) :: τ) = faults label τ := rfl

@[simp] theorem faults_order (js : List ℕ) : faults label ((t, .order js) :: τ) = faults label τ := rfl

@[simp] theorem faultsOf_emit (e : Metric) : faultsOf label (.emit e : Ev (S3 κ)) = [] := rfl

@[simp] theorem faultsOf_want (s : κ × Half) (a : Acquire) :
    faultsOf label (.want s a : Ev (S3 κ)) = [] := rfl

@[simp] theorem faultsOf_got (s : κ × Half) (a : Acquire) (d : ℕ) :
    faultsOf label (.got s a d : Ev (S3 κ)) = [] := rfl

@[simp] theorem faultsOf_freed : faultsOf label (.freed : Ev (S3 κ)) = [] := rfl

@[simp] theorem faultsOf_lost (s : κ × Half) (a : Acquire) :
    faultsOf label (.lost s a : Ev (S3 κ)) = [a.timeoutError s.2.name] := rfl

@[simp] theorem faultsOf_sent (q : (S3 κ).Ask) : faultsOf label (.sent n q : Ev (S3 κ)) = [] := rfl

@[simp] theorem faultsOf_collected (b : Bytes) (x : Except String Bytes) :
    faultsOf label (collected (κ := κ) n b x) = bodyFaults label x := rfl

/-- **Every error that something stands for is one of the backend.** -/
theorem faultsOf_backend {e : Ev (S3 κ)} {x : S3Error} (h : x ∈ faultsOf label e) :
    ∃ kind message, x = .backend kind message := by
  have hclass : ∀ e, ∃ kind message, classify e = .backend kind message := by
    intro e
    cases e <;> exact ⟨_, _, rfl⟩
  have hreply : ∀ (r : Request) (y : Except SdkError r.Output), x ∈ replyFaults r y →
      ∃ kind message, x = .backend kind message := by
    intro r y hx
    unfold replyFaults at hx
    split at hx
    · exact ⟨_, _, List.mem_singleton.mp hx⟩
    · exact ⟨_, _, List.mem_singleton.mp hx⟩
    · cases hx
    · rw [List.mem_singleton.mp hx]
      exact hclass _
  unfold faultsOf at h
  split at h
  · exact ⟨_, _, List.mem_singleton.mp h⟩
  · exact hreply _ _ h
  · unfold bodyFaults at h
    split at h
    · cases h
    · exact ⟨_, _, List.mem_singleton.mp h⟩
  · cases h

/-! ## Requests -/

/-- The watch of what goes wrong allows everything: only results are of interest. -/
abbrev anything : Watch (S3 κ) := .of fun _ => True

/-- The requests whose reply is taken as it is. -/
def Request.plain : Request → Bool
  | .createMultipartUpload .. | .uploadPart .. => false
  | _ => true

theorem replyFaults_plain {r : Request} (hr : r.plain = true) (x : Except SdkError r.Output) :
    Judged (replyFaults r x) (x.mapError classify) := by
  cases x with
  | error e => cases r <;> exact List.mem_singleton_self _
  | ok y =>
    cases r with
    | createMultipartUpload => cases hr
    | uploadPart => cases hr
    | _ => rfl

variable (label) in
theorem Leaf.send_faults (r : Request) : (Leaf.send r : Leaf (S3 κ) _).Spec anything
    (fun y τ' => ∃ x : Except SdkError r.Output, y = x.mapError classify ∧
      faults label τ' = replyFaults r x ++ faults label τ) τ := by
  simp only [Leaf.spec_send, true_and]
  exact fun s n t x => ⟨x, rfl, rfl⟩

variable (label) in
theorem Leaf.send_judged {r : Request} (hr : r.plain = true) (hτ : faults label τ = []) :
    (Leaf.send r : Leaf (S3 κ) _).Spec anything (fun y τ' => Judged (faults label τ') y) τ := by
  refine (Leaf.send_faults label r).weaken ?_
  rintro y τ' - ⟨x, rfl, hx⟩
  rw [hx, hτ, List.append_nil]
  exact replyFaults_plain hr x

variable (label) in
theorem send_judged {r : Request} (hr : r.plain = true) (hτ : faults label τ = []) :
    (send r : Prog (S3 κ) _).Spec anything (fun y τ' => Judged (faults label τ') y) τ :=
  spec_send (Leaf.send_judged label hr hτ)

theorem Leaf.collect_judged (stream : Bytes) (hτ : faults label τ = []) :
    (Leaf.collect stream label : Leaf (S3 κ) _).Spec anything
      (fun y τ' => Judged (faults label τ') y) τ := by
  simp only [Leaf.spec_collect, true_and, faults_event, faultsOf_collected, faultsOf_sent, hτ,
    List.append_nil]
  rintro s n t (text | d)
  · exact List.mem_singleton_self _
  · rfl

/-! ## Statements -/

/-- **An acquisition and the scope of its guard.** -/
theorem guarded_judged {self : S3Client κ} {h : Half} {a : Acquire}
    {rest : Prog (S3 κ) (S3Result α)} (hτ : faults label τ = [])
    (hrest : ∀ τ₁, faults label τ₁ = [] →
      rest.Spec anything (fun r τ' => Judged (faults label τ') r) τ₁) :
    (self.guarded h a rest).Spec anything (fun r τ' => Judged (faults label τ') r) τ := by
  rw [spec_guarded]
  simp only [true_and, faults_event, faultsOf_freed, faultsOf_lost, faultsOf_want, List.nil_append]
  refine fun s => ⟨fun t u => ?_, fun t => ?_⟩
  · refine (hrest _ ?_).weaken fun r τ' _ h _ => h
    simpa using hτ
  · exact List.mem_append_left _ (List.mem_singleton_self _)

/-- **A stream**: it is fine exactly when all of its futures are. -/
theorem stream_judged {w : ℕ} {ls : List (Leaf (S3 κ) (S3Result α))} (hτ : faults label τ = [])
    (hl : ∀ l ∈ ls, l.Spec anything (fun r τ' => Judged (faults label τ') r) []) :
    (Prog.bufferUnordered w ls).Spec anything
      (fun rs τ' => ((∀ r ∈ rs, isOk r = true) → faults label τ' = []) ∧
        ∀ e, .error e ∈ rs → e ∈ faults label τ') τ := by
  refine Prog.spec_bufferUnordered (fun _ _ => True) (fun _ r τ' => Judged (faults label τ') r)
    (fun j l hj => hl l (List.mem_of_getElem? hj)) (fun _ _ _ _ _ _ => ⟨trivial, trivial⟩) ?_
  intro loc new rs t hwoven hperm hres
  refine ⟨trivial, ?_⟩
  rw [faults_order, faults_append, hτ, List.append_nil]
  -- an error that something in the stream stands for is one of a future
  have hmem : ∀ e, e ∈ faults label new ↔ ∃ j, e ∈ faults label (loc j) := by
    intro e
    unfold faults History.events
    simp only [List.mem_flatMap, List.mem_filterMap, hwoven.shuffle.mem_iff]
    constructor
    · rintro ⟨ev, ⟨x, ⟨j, hx⟩, hev⟩, he⟩
      exact ⟨j, ev, ⟨x, hx, hev⟩, he⟩
    · rintro ⟨j, ev, ⟨x, hx, hev⟩, he⟩
      exact ⟨ev, ⟨x, ⟨j, hx⟩, hev⟩, he⟩
  constructor
  · intro hok
    refine List.eq_nil_iff_forall_not_mem.mpr fun e he => ?_
    obtain ⟨j, hj⟩ := (hmem e).mp he
    rcases Nat.lt_or_ge j ls.length with hlt | hge
    · obtain ⟨x, hx, rfl⟩ := List.mem_map.mp (hperm.mem_iff.mpr (List.mem_range.mpr hlt))
      have hjudged := hres x hx
      have hisok := hok x.2 (List.mem_map_of_mem hx)
      cases hr : x.2 with
      | ok v =>
        rw [hr] at hjudged
        have hnil : faults label (loc x.1) = [] := hjudged
        rw [hnil] at hj
        cases hj
      | error e' =>
        rw [hr] at hisok
        cases hisok
    · rw [hwoven.outside j hge] at hj
      cases hj
  · intro e he
    obtain ⟨x, hx, hxe⟩ := List.mem_map.mp he
    have hjudged := hres x hx
    rw [hxe] at hjudged
    exact (hmem e).mpr ⟨x.1, hjudged⟩

theorem finish_judged {r' : S3Result α} (h : Judged (faults label τ) r') :
    (finish r' : Prog (S3 κ) Unit).Spec anything (fun _ τ' => Judged (faults label τ') r') τ := by
  cases r' with
  | ok v =>
    show (recordOk : Prog (S3 κ) Unit).Spec _ _ _
    simp only [spec_recordOk, true_and, faults_event, faults_read, faultsOf_emit, List.nil_append]
    exact fun _ _ _ => h
  | error e =>
    show (recordErr e : Prog (S3 κ) Unit).Spec _ _ _
    simp only [spec_recordErr, true_and, faults_event, faults_read, faultsOf_emit, List.nil_append]
    exact fun _ _ => h

end

/-! ## Operations -/

section

variable {self : S3Client κ} {label key : String} {τ : History (S3 κ)}

variable (label) in
theorem stat_judged (hτ : faults label τ = []) :
    (self.stat key).Spec anything (fun r τ' => Judged (faults label τ') r) τ := by
  refine guarded_judged hτ fun τ₁ h₁ => ?_
  rw [Prog.bind_eq, Prog.spec_bind]
  refine (send_judged label rfl h₁).weaken fun r τ₂ _ h => (Prog.spec_ret _).mpr ⟨trivial, ?_⟩
  cases r with
  | ok out => exact h
  | error e => exact h

variable (label) in
theorem simplePut_judged {body : Bytes} (hτ : faults label τ = []) :
    (self.simplePut key body).Spec anything (fun r τ' => Judged (faults label τ') r) τ := by
  refine guarded_judged hτ fun τ₁ h₁ => ?_
  simp only [Prog.bind_eq, Prog.pure_eq, Prog.spec_bind, Prog.spec_clock, true_and]
  intro t
  refine (send_judged label rfl ?_).weaken fun r τ₂ _ h => ?_
  · simpa using h₁
  · simp only [Prog.spec_log, Prog.spec_ret, true_and, faults_event, faults_read, faultsOf_emit,
      List.nil_append]
    exact fun _ _ _ => h

theorem getBody_judged (hτ : faults "body" τ = []) :
    (self.getBody key).Spec anything (fun r τ' => Judged (faults "body" τ') r) τ := by
  unfold S3Client.getBody
  simp only [Leaf.bind_eq, Leaf.pure_eq, Leaf.spec_bind, Leaf.spec_clock, Leaf.spec_log, true_and]
  refine fun t => (Leaf.send_judged _ rfl hτ).weaken fun r τ₁ _ h => ?_
  intro t' u
  cases r with
  | error e =>
    simp only [Leaf.spec_bind, Leaf.spec_clock, Leaf.spec_log, Leaf.spec_ret, true_and, faults_event,
      faultsOf_emit, List.nil_append]
    exact fun _ _ => h
  | ok out =>
    dsimp only
    rw [Leaf.spec_bind]
    refine (Leaf.collect_judged out.body ?_).weaken fun r τ₂ _ h₂ => ?_
    · rw [faults_event, faultsOf_emit, List.nil_append]
      exact h
    · simp only [Leaf.spec_bind, Leaf.spec_clock, Leaf.spec_log, Leaf.spec_ret, true_and, faults_event,
        faultsOf_emit, List.nil_append]
      exact fun _ _ => h₂

theorem uploadPart_judged (uid : String) (pn : ℤ) (chunk : Bytes) (hτ : faults label τ = []) :
    (self.uploadPart key uid pn chunk).Spec anything (fun r τ' => Judged (faults label τ') r) τ := by
  unfold S3Client.uploadPart
  simp only [Leaf.bind_eq, Leaf.pure_eq, Leaf.spec_bind, Leaf.spec_clock, Leaf.spec_log, Leaf.spec_ret,
    true_and]
  refine fun t => (Leaf.send_faults label _).weaken ?_
  rintro y τ₁ - ⟨x, rfl, hx⟩
  simp only [faults_event, faultsOf_emit, List.nil_append, hx, hτ, List.append_nil]
  intro _ _ _
  cases x with
  | error e => exact List.mem_singleton_self _
  | ok out =>
    obtain ⟨eTag⟩ := out
    cases eTag with
    | none => exact List.mem_singleton_self _
    | some etag => rfl

theorem rangePart_judged (i : ℕ) (r : ℕ × ℕ) (hτ : faults "range body" τ = []) :
    (self.rangePart key i r).Spec anything (fun r τ' => Judged (faults "range body" τ') r) τ := by
  unfold S3Client.rangePart
  simp only [Leaf.bind_eq, Leaf.pure_eq, Leaf.spec_bind, Leaf.spec_clock, Leaf.spec_log, true_and]
  refine fun t => (Leaf.send_judged _ rfl hτ).weaken fun y τ₁ _ h => ?_
  intro t' u
  cases y with
  | error e =>
    simp only [Leaf.spec_ret, true_and, faults_event, faultsOf_emit, List.nil_append]
    exact h
  | ok out =>
    simp only [Leaf.spec_bind]
    refine (Leaf.collect_judged out.body ?_).weaken fun y τ₂ _ h₂ => ?_
    · rw [faults_event, faultsOf_emit, List.nil_append]
      exact h
    · cases y with
      | error e => exact (Leaf.spec_ret _).mpr ⟨trivial, h₂⟩
      | ok d =>
        simp only [Leaf.spec_bind, Leaf.spec_clock, Leaf.spec_log, Leaf.spec_ret, true_and, faults_event,
          faultsOf_emit, List.nil_append]
        exact fun _ _ => h₂

theorem all_ok {rs : List (S3Result α)} (h : Results.firstError rs = none) :
    ∀ r ∈ rs, isOk r = true := by
  intro r hr
  obtain ⟨v, rfl⟩ := Results.ok_of_mem h hr
  rfl

variable (label) in
/-- **`multipart_put`.** After a failed part the abort is sent, and its reply changes nothing. -/
theorem multipartPut_judged {body : Bytes} (hτ : faults label τ = []) :
    (self.multipartPut key body).Spec anything (fun r τ' => Judged (faults label τ') r) τ := by
  refine guarded_judged hτ fun τ₁ h₁ => ?_
  rw [Prog.bind_eq, Prog.spec_bind]
  refine (spec_send (Leaf.send_faults label _)).weaken ?_
  rintro y τ₂ - ⟨x, rfl, hx⟩
  rw [h₁, List.append_nil] at hx
  have hstop : ∀ e : S3Error, e ∈ faults label τ₂ →
      (Prog.ret (.error e) : Prog (S3 κ) (S3Result Unit)).Spec anything
        (fun r τ' => Judged (faults label τ') r) τ₂ :=
    fun e he => (Prog.spec_ret _).mpr ⟨trivial, he⟩
  match x with
  | .error e => exact hstop _ (hx ▸ List.mem_singleton_self _)
  | .ok ⟨none⟩ => exact hstop _ (hx ▸ List.mem_singleton_self _)
  | .ok ⟨some uid⟩ =>
    show (Prog.bind _ _).Spec _ _ _
    rw [Prog.spec_bind]
    refine (stream_judged hx ?_).weaken ?_
    · intro l hl
      obtain ⟨c, -, rfl⟩ := List.mem_map.mp hl
      exact uploadPart_judged uid c.1 c.2 rfl
    · rintro rs τ₃ - ⟨hok, herr⟩
      rw [collectParts_eq]
      cases hc : Results.firstError rs with
      | none => exact send_judged label (r := .completeMultipartUpload _ _ _ _) rfl (hok (all_ok hc))
      | some e =>
        have he := herr e (Results.firstError_mem hc)
        show (Prog.bind _ _).Spec _ _ _
        rw [Prog.spec_bind]
        refine (spec_send (Leaf.send_faults label _)).weaken ?_
        rintro y τ₄ - ⟨x, -, hx⟩
        refine (Prog.spec_ret _).mpr ⟨trivial, ?_⟩
        show e ∈ faults label τ₄
        rw [hx]
        exact List.mem_append_right _ he

/-- **`range_get`.** -/
theorem rangeGet_judged {total : ℕ} (hτ : faults "range body" τ = []) :
    (self.rangeGet key total).Spec anything (fun r τ' => Judged (faults "range body" τ') r) τ := by
  refine guarded_judged hτ fun τ₁ h₁ => ?_
  rw [Prog.bind_eq, Prog.spec_bind]
  refine (stream_judged h₁ ?_).weaken ?_
  · intro l hl
    obtain ⟨i, -, rfl⟩ := List.mem_map.mp hl
    exact rangePart_judged i _ rfl
  · rintro rs τ₂ - ⟨hok, herr⟩
    refine (Prog.spec_ret _).mpr ⟨trivial, ?_⟩
    unfold S3Client.reassemble
    rw [Results.mapM_id]
    cases hm : Results.firstError rs with
    | some e => exact herr e (Results.firstError_mem hm)
    | none => exact hok (all_ok hm)

/-- **`paginated_list`**: nothing has gone wrong before a later page. -/
theorem paginatedList_judged {pfx : String} {recursive : Bool} (hτ : faults label τ = []) :
    (self.paginatedList pfx recursive).Spec anything (fun r τ' => Judged (faults label τ') r) τ := by
  refine Prog.spec_repeat (fun _ _ τ' => faults label τ' = []) ?_ hτ
  refine fun i s τ₁ h₁ => ⟨fun _ _ => trivial, ?_⟩
  unfold S3Client.listPage
  rw [Leaf.bind_eq, Leaf.spec_bind]
  refine (Leaf.send_judged label rfl h₁).weaken fun y τ₂ _ h => ?_
  match y with
  | .error e => exact (Leaf.spec_ret _).mpr ⟨trivial, h⟩
  | .ok ⟨c, p, some true, some t⟩ => exact (Leaf.spec_ret _).mpr ⟨trivial, h⟩
  | .ok ⟨c, p, some true, none⟩ => exact (Leaf.spec_ret _).mpr ⟨trivial, h⟩
  | .ok ⟨c, p, some false, t⟩ => exact (Leaf.spec_ret _).mpr ⟨trivial, h⟩
  | .ok ⟨c, p, none, t⟩ => exact (Leaf.spec_ret _).mpr ⟨trivial, h⟩

/-- An operation that ends under its guard. -/
theorem ended_judged {h : Half} {a : Acquire} {p : Prog (S3 κ) (S3Result α)} (v : α → Value)
    (hp : ∀ τ, faults label τ = [] → p.Spec anything (fun r τ' => Judged (faults label τ') r) τ) :
    anything.triples.Triple (fun τ => faults label τ = [])
      (self.guarded h a (p.bind fun r => (finish r).bind fun _ => .ret r))
      fun τ r => Judged (faults label τ) (r.map v) := by
  refine fun τ _ hτ => (guarded_judged hτ fun τ₁ h₁ => ?_).weaken fun r τ' _ h => h.map _
  rw [Prog.spec_bind]
  refine (hp τ₁ h₁).weaken fun r τ₂ _ h₂ => ?_
  rw [Prog.spec_bind]
  exact (finish_judged h₂).weaken fun _ _ _ h₃ => (Prog.spec_ret _).mpr ⟨trivial, h₃⟩

variable (label) in
/-- **What has gone wrong in a call is what it returns**, under any label, if it reads no body. -/
theorem op_judged (op : Op) (hop : ∀ key, op ≠ .get key) :
    (op.program self).Spec anything (fun r τ => Judged (faults label τ) r) [] := by
  refine op_of_stages (T := anything.triples) (A := fun τ => faults label τ = [])
    (B := fun τ r => Judged (faults label τ) r) (C := fun τ r => Judged (faults label τ) r)
    (I := (· = [])) ?_ (fun r τ _ h => finish_judged h) ?_ [] trivial rfl
  · rintro τ - rfl
    simp only [spec_startOp, true_and]
    exact fun t u => rfl
  cases op with
  | put key body =>
    refine ⟨fun τ => faults label τ = [], fun τ _ h => (Prog.spec_log _).mpr ⟨trivial, fun t =>
      ⟨trivial, h⟩⟩, fun _ τ _ h => ?_, fun _ τ _ h => ?_⟩
    · exact (multipartPut_judged label h).weaken fun r τ _ h => h.map _
    · exact (simplePut_judged label h).weaken fun r τ _ h => h.map _
  | get key => exact absurd rfl (hop key)
  | delete key => exact ended_judged _ fun τ h => send_judged label (r := .deleteObject _ _) rfl h
  | head key => exact fun τ _ h => (stat_judged label h).weaken fun r τ _ h => h.map _
  | list pfx recursive => exact ended_judged _ fun τ h => paginatedList_judged h

/-- `stat` was told the length `n` of the object. -/
def Sized (self : S3Client κ) (key : String) (n : ℕ) (past : List (Ev (S3 κ))) : Prop :=
  ∃ m out, replied m (.headObject self.config.bucket key) (.ok out) ∈ past ∧
    asU64 (out.contentLength.getD 0) = n

theorem Sized.mono {n : ℕ} (h : Sized self key n τ.events) {τ' : History (S3 κ)} (hτ : τ <:+ τ') :
    Sized self key n τ'.events := by
  obtain ⟨m, out, hm, hn⟩ := h
  exact ⟨m, out, (hτ.filterMap _).subset hm, hn⟩

theorem stat_sized : (self.stat key).Spec anything
    (fun r τ' => ∀ info, r = .ok info → Sized self key info.contentLength τ'.events) τ := by
  unfold S3Client.stat
  rw [spec_guarded]
  simp only [Prog.bind_eq, Prog.pure_eq, Prog.spec_bind, Prog.spec_ret, true_and]
  refine fun s => ⟨fun t u => spec_send ?_, fun t info hinfo => ?_⟩
  · simp only [Leaf.spec_send, true_and]
    rintro s n t (e | out) v info h
    · cases h
    · cases h
      exact ⟨n, out, List.mem_cons_of_mem _ List.mem_cons_self, rfl⟩
  · cases hinfo

/-- What `get_object` names the bodies of an object of length `n`. -/
def S3Client.bodyLabel (self : S3Client κ) (n : ℕ) : String :=
  if self.config.multipartThreshold.toNat < n then "range body" else "body"

/-- **What a `get_object` has returned**: it is judged under the label for the length that it was told, or,
if it was told none, under any. -/
def GetJudged (self : S3Client κ) (key : String) (τ : History (S3 κ)) (r : S3Result α) : Prop :=
  (∃ n, Sized self key n τ.events ∧ Judged (faults (self.bodyLabel n) τ) r) ∨
    ∀ label, Judged (faults label τ) r

theorem finish_getJudged {r : S3Result α} (h : GetJudged self key τ r) :
    (finish r : Prog (S3 κ) _).Spec anything (fun _ τ' => GetJudged self key τ' r) τ := by
  rcases h with ⟨n, hn, hj⟩ | hj
  · exact (finish_judged hj).grows.weaken fun _ τ' _ h => Or.inl ⟨n, hn.mono h.2, h.1⟩
  · exact (Prog.Spec.forall fun label => finish_judged (hj label)).weaken fun _ _ _ h => Or.inr h

theorem GetJudged.map {r : S3Result α} (h : GetJudged self key τ r) (v : α → Value) :
    GetJudged self key τ (r.map v) := by
  rcases h with ⟨n, hn, hj⟩ | hj
  · exact Or.inl ⟨n, hn, hj.map v⟩
  · exact Or.inr fun label => (hj label).map v

/-- **What has gone wrong in a `get_object` is what it returns.** -/
theorem get_judged (key : String) :
    ((Op.get key).program self).Spec anything (fun r τ => GetJudged self key τ r) [] := by
  refine op_of_stages (T := anything.triples) (A := fun τ => ∀ label, faults label τ = [])
    (B := GetJudged self key) (C := GetJudged self key) (I := (· = []))
    ?_ (fun r τ _ h => finish_getJudged h) ?_ [] trivial rfl
  · rintro τ - rfl
    simp only [spec_startOp, true_and]
    exact fun t u label => rfl
  refine ⟨fun τ r => (∀ label, Judged (faults label τ) r) ∧
      ∀ info, r = .ok info → Sized self key info.contentLength τ.events,
    GetJudged self key, ?_, fun e τ h => Or.inr h.1, ?_, ?_, ?_, fun e τ h => h.map .data⟩
  · exact fun τ _ h => (Prog.Spec.forall fun label => stat_judged label (h label)).and stat_sized
  · rintro info hlen τ - ⟨hj, hsized⟩
    have hlabel : self.bodyLabel info.contentLength = "range body" := if_pos hlen
    exact (rangeGet_judged (hj _)).grows.weaken fun r τ' _ h =>
      Or.inl ⟨_, (hsized info rfl).mono h.2, hlabel ▸ h.1⟩
  · rintro info hlen τ - ⟨hj, hsized⟩
    have hlabel : self.bodyLabel info.contentLength = "body" := if_neg hlen
    have hsimple : (self.simpleGet key).Spec anything (fun r τ' => Judged (faults "body" τ') r) τ :=
      guarded_judged (hj _) fun τ₁ h₁ => Prog.spec_wait (getBody_judged h₁)
    exact hsimple.grows.weaken fun r τ' _ h =>
      Or.inl ⟨_, (hsized info rfl).mono h.2, hlabel ▸ h.1⟩
  · refine fun d τ _ h => (Prog.spec_log _).mpr ⟨trivial, fun t => ⟨trivial, ?_⟩⟩
    refine GetJudged.map (r := .ok d) ?_ .data
    rcases h with ⟨n, hn, hj⟩ | hj
    · exact Or.inl ⟨n, hn.mono (List.suffix_cons _ _), hj⟩
    · exact Or.inr hj

end

/-! ## Every run -/

/-- The errors that the events of a call stand for. -/
def Proc.faults (label : String) (q : Proc κ) : List S3Error := q.trace.flatMap (faultsOf label)

section

variable [DecidableEq κ] [DecidableEq ι]

/-- **Errors are justified, and nothing is swallowed.** A call that returns has succeeded exactly when
nothing has gone wrong in it: no acquisition timed out, every request and every body it has waited for
came without an error, and every upload and every part had its id or etag. Otherwise it returns one of
the errors that these stand for, and never one of the configuration. Only `get_object` reads bodies, and
names them by the length that it was told. -/
theorem errors_justified (S : Setup κ ι) {s : Sys κ ι} {l : List ((ι × Act κ) × Sys κ ι)}
    (hr : Run Sys.Step S.init l s) {i : ι} {r : Outcome} (hm : (s.procs i).mode = .ended (some r)) :
    ((∃ key n, S.op i = .get key ∧ Sized (S.client i) key n (s.procs i).trace ∧
        Judged ((s.procs i).faults ((S.client i).bodyLabel n)) r) ∨
      ∀ label, Judged ((s.procs i).faults label) r) ∧
      ∀ message, r ≠ .error (.config message) := by
  obtain ⟨τ, hτ⟩ := follows_run hr i
  have hfaults : ∀ label, faults label τ = (s.procs i).faults label := by
    intro label
    unfold Proc.faults
    rw [hτ.trace]
    rfl
  have hjudged : (∃ key n, S.op i = .get key ∧ Sized (S.client i) key n (s.procs i).trace ∧
      Judged ((s.procs i).faults ((S.client i).bodyLabel n)) r) ∨
        ∀ label, Judged ((s.procs i).faults label) r := by
    simp only [← hfaults, hτ.trace]
    by_cases hget : ∃ key, S.op i = .get key
    · obtain ⟨key, hkey⟩ := hget
      have hret := hτ.reached.returned (hkey ▸ get_judged key) hm
      exact hret.imp_left fun ⟨n, hn, hj⟩ => ⟨key, n, hkey, hn, hj⟩
    · have hop : ∀ key, S.op i ≠ .get key := fun key hkey => hget ⟨key, hkey⟩
      exact Or.inr fun label => hτ.reached.returned (op_judged label (S.op i) hop) hm
  refine ⟨hjudged, ?_⟩
  rintro message rfl
  have herror : ∃ label, S3Error.config message ∈ (s.procs i).faults label := by
    rcases hjudged with ⟨key, n, -, -, hj⟩ | hj
    · exact ⟨_, hj⟩
    · exact ⟨"body", hj "body"⟩
  obtain ⟨label, hmem⟩ := herror
  obtain ⟨e, -, he⟩ := List.mem_flatMap.mp hmem
  obtain ⟨kind, text, heq⟩ := faultsOf_backend he
  cases heq

/-- A service that has an object of one byte, and breaks off its body. -/
def brokenAnswer (n : ℕ) : ∀ q, (S3 κ).Ans q
  | .http r => sampleAnswer [0] n (.http r)
  | .collect _ => .error "closed"

/-- `get_object` of an object in one range, whose body breaks off. -/
theorem errors_justified_broken : ∃ l s, Run Sys.Step (smallSetup fun _ : Fin 1 => .get "key").init l s ∧
    (s.procs 0).mode = .ended (some (.error (.backend .other "range body: closed"))) ∧
    .backend .other "range body: closed" ∈ (s.procs 0).faults "range body" := by
  obtain ⟨l, s, hr, hobs⟩ := (smallSetup fun _ : Fin 1 => .get "key").observe brokenAnswer
    (List.replicate 53 (0, .go)) (fun s => ((s.procs 0).mode, (s.procs 0).faults "body"))
    (v := (.ended (some (.error (.backend .other "range body: closed"))),
      [.backend .other "body: closed"])) rfl
  obtain ⟨hm, hbody⟩ := Prod.mk.inj hobs
  refine ⟨l, s, hr, hm, ?_⟩
  obtain ⟨⟨key, n, -, -, hj⟩ | hj, -⟩ := errors_justified _ hr hm
  · unfold S3Client.bodyLabel at hj
    split_ifs at hj
    · exact hj
    · rw [hbody] at hj
      have hne : S3Error.backend .other "range body: closed" ∉ [.backend .other "body: closed"] := by decide
      exact absurd hj hne
  · exact hj "range body"

end

end S3o
