import S3o.Wire.Messages

/-!
# Transfers

The PUTs, parts and GETs of an upload or a download are transfers. Each of the four sites that send one
makes its HTTP record. Three do so whatever the reply is. The one of a range does so last, so that a range
that has left by `?` has no record.

* `Fetch`: what became of a GET, its messages and its result;
* `Transfer`: a transfer and what became of it, its messages and its record;
* `Wire`, `wired`: what is seen of the transfers of a history.
-/

namespace S3o

open Async Lts

variable {κ : Type}

/-! ## GETs -/

/-- **What became of a GET**: it was refused, the rest of its body was not read, or it was read as `x`.
`b` is what the stream of the reply carries. -/
inductive Fetch
  | refused (e : SdkError)
  | broken (b : Bytes) (e : String)
  | read (b x : Bytes)

namespace Fetch

/-- What a GET has said at its end, newest first. -/
def messages (bucket key : String) (range : Option ByteRange) : Fetch → List Msg
  | refused e =>
    [.reply (.getObject bucket key range) (.error e), .request (.getObject bucket key range)]
  | broken b e => [.body b (.error e), .await b, .reply (.getObject bucket key range) (.ok ⟨b⟩),
      .request (.getObject bucket key range)]
  | read b x => [.body b (.ok x), .await b, .reply (.getObject bucket key range) (.ok ⟨b⟩),
      .request (.getObject bucket key range)]

/-- What a GET returns; `label` is that of its body. -/
def result (label : String) : Fetch → S3Result Bytes
  | refused e => .error (classify e)
  | broken _ e => .error (.backend .other s!"{label}: {e}")
  | read _ x => .ok x

/-- The error of a GET that has failed. -/
def error (label : String) (x : Fetch) : Option S3Error :=
  match x.result label with
  | .error e => some e
  | .ok _ => none

/-- The bytes that a GET has read. -/
def bytes : Fetch → Bytes
  | read _ x => x
  | _ => []

theorem result_eq (label : String) (x : Fetch) : x.result label =
    match x.error label with
    | some e => .error e
    | none => .ok x.bytes := by
  cases x <;> rfl

theorem error_eq_none {label : String} {x : Fetch} : x.error label = none ↔ ∃ b y, x = .read b y := by
  cases x with
  | refused e => exact ⟨nofun, fun ⟨_, _, h⟩ => nomatch h⟩
  | broken b e => exact ⟨nofun, fun ⟨_, _, h⟩ => nomatch h⟩
  | read b y => exact ⟨fun _ => ⟨b, y, rfl⟩, fun _ => rfl⟩

end Fetch

/-! ## Transfers -/

/-- The label of the records of a request, if it has any. -/
def Request.httpLabel : Request → Option String
  | .putObject .. => some "put"
  | .uploadPart .. => some "put_part"
  | .getObject _ _ none => some "get"
  | .getObject _ _ (some _) => some "get_range"
  | _ => none

/-- **A transfer**: its request and what became of it. -/
inductive Transfer
  | put (bucket key : String) (body : Bytes) (sum : Option ChecksumAlgorithm)
      (x : Except SdkError (Request.putObject bucket key body sum).Output)
  | part (bucket key uid : String) (pn : ℤ) (chunk : Bytes) (sum : Option ChecksumAlgorithm)
      (x : Except SdkError (Request.uploadPart bucket key uid pn chunk sum).Output)
  | get (bucket key : String) (range : Option ByteRange) (x : Fetch)

/-- What is seen of a transfer: its messages, and its record with the label and whether it says `ok`. -/
inductive Wire
  | msg (m : Msg)
  | http (op : String) (ok : Bool)

namespace Transfer

def request : Transfer → Request
  | put bucket key body sum _ => .putObject bucket key body sum
  | part bucket key uid pn chunk sum _ => .uploadPart bucket key uid pn chunk sum
  | get bucket key range _ => .getObject bucket key range

def label : Transfer → String
  | put .. => "put"
  | part .. => "put_part"
  | get _ _ none _ => "get"
  | get _ _ (some _) _ => "get_range"

/-- The GET of a range. -/
def ranged : Transfer → Bool
  | get _ _ (some _) _ => true
  | _ => false

/-- The request was accepted, and its body was read if it is a GET. -/
def succeeded : Transfer → Bool
  | put _ _ _ _ x => x.isOk
  | part _ _ _ _ _ _ x => x.isOk
  | get _ _ _ (.read ..) => true
  | get .. => false

/-- The messages of a transfer, newest first. -/
def messages : Transfer → List Msg
  | put bucket key body sum x =>
    [.reply (.putObject bucket key body sum) x, .request (.putObject bucket key body sum)]
  | part bucket key uid pn chunk sum x => [.reply (.uploadPart bucket key uid pn chunk sum) x,
      .request (.uploadPart bucket key uid pn chunk sum)]
  | get bucket key range x => x.messages bucket key range

/-- The code makes a record of the transfer. -/
def recorded (t : Transfer) : Bool := !t.ranged || t.succeeded

/-- What is seen of a transfer, newest first. -/
def log (t : Transfer) : List Wire :=
  (if t.recorded then [.http t.label t.succeeded] else []) ++ t.messages.map .msg

theorem httpLabel_request (t : Transfer) : t.request.httpLabel = some t.label := by
  cases t with
  | get bucket key range x => cases range <;> rfl
  | _ => rfl

theorem ranged_iff (t : Transfer) : t.ranged = true ↔ t.label = "get_range" := by
  cases t with
  | get bucket key range x => cases range <;> simp [ranged, label]
  | _ => simp [ranged, label]

end Transfer

/-- The messages that are those of a transfer. -/
def Msg.ofTransfer : Msg → Bool
  | .request r | .reply r _ => r.httpLabel.isSome
  | .await _ | .body _ _ => true

def wireOf : Ev (S3 κ) → Option Wire
  | .emit (.http op _ ok) => some (.http op ok)
  | e => ((msgOf e).filter Msg.ofTransfer).map .msg

/-- What is seen of the transfers of a history, newest first. -/
def wired (τ : History (S3 κ)) : List Wire := τ.events.filterMap wireOf

section

variable {τ τ' : History (S3 κ)} {t n : ℕ}

@[simp] theorem wired_append : wired (τ ++ τ') = wired τ ++ wired τ' := by
  unfold wired
  rw [History.events_append, List.filterMap_append]

@[simp] theorem wired_order (js : List ℕ) : wired ((t, .order js) :: τ) = wired τ := rfl

@[simp] theorem wired_want (h : κ × Half) (a : Acquire) : wired ((t, .event (.want h a)) :: τ) = wired τ :=
  rfl

@[simp] theorem wired_got (h : κ × Half) (a : Acquire) (d : ℕ) :
    wired ((t, .event (.got h a d)) :: τ) = wired τ := rfl

@[simp] theorem wired_lost (h : κ × Half) (a : Acquire) : wired ((t, .event (.lost h a)) :: τ) = wired τ :=
  rfl

@[simp] theorem wired_addQueueWait (d : ℕ) :
    wired ((t, .event (.emit (.addQueueWait d))) :: τ) = wired τ := rfl

/-- A request without a label and its reply are not seen. -/
theorem wired_exchange {r : Request} (hr : r.httpLabel = none) (u m : ℕ) (x : Except SdkError r.Output) :
    wired ((t, .event (replied n r x)) :: (u, .event (requested m r)) :: τ) = wired τ := by
  cases r with
  | putObject _ _ _ _ => cases hr
  | uploadPart _ _ _ _ _ _ => cases hr
  | getObject _ _ range => cases range <;> cases hr
  | _ => rfl

end

end S3o
