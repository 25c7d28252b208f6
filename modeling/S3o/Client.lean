import Mathlib.Algebra.Group.Int.Defs
import Mathlib.Data.Int.Init
import Mathlib.Data.List.Sort
import S3o.Async.Prog
import S3o.Config
import S3o.Metrics
import S3o.Pool.Model

/-!
# The client

`client.rs`: the five public operations as programs. A program asks for HTTP replies and bodies, logs
into `metrics.rs`, and acquires permits of one of the two halves of its pool. A guard is released
where its scope ends, on every exit. Arithmetic on `usize` and `u64` wraps, as in a build without
overflow checks. Spans and log lines are left out.

* `S3Client`, whose configuration is validated;
* `guarded`: an acquisition, the early return on its timeout, and the scope of the guard;
* `putObject`, `getObject`, `deleteObject`, `headObject`, `listObjects`, and below them `stat`,
  `simplePut`, `simpleGet`, `paginatedList`, `multipartPut`, `rangeGet`;
* `Op`, `Op.program`: a call of any of the five.
-/

namespace S3o

open Async

/-- The halves of `Pool`. -/
inductive Half
  | read
  | write
  deriving DecidableEq

/-- `HalfPool::name`. -/
def Half.name : Half → String
  | .read => "read"
  | .write => "write"

/-- What the client asks for and logs, and which semaphores it shares. `κ` names the pools: a client
and its clones have one. -/
abbrev S3 (κ : Type) : Sig := ⟨Await, Await.Answer, Metric, κ × Half, Acquire⟩

/-- Request `r` is sent, as question `n`. -/
@[reducible] def requested {κ : Type} (n : ℕ) (r : Request) : Ev (S3 κ) :=
  .sent (S := S3 κ) n (Await.http r)

/-- Question `n`, the request `r`, is answered. -/
@[reducible] def replied {κ : Type} (n : ℕ) (r : Request) (x : Except SdkError r.Output) : Ev (S3 κ) :=
  .answered (S := S3 κ) n (Await.http r) x

/-- Question `n`, the rest of the body `b`, is answered. -/
@[reducible] def collected {κ : Type} (n : ℕ) (b : Bytes) (x : Except String Bytes) : Ev (S3 κ) :=
  .answered (S := S3 κ) n (Await.collect b) x

/-- `S3Client`. `chrono` is the conversion of an SDK timestamp into a `chrono::DateTime`. -/
structure S3Client (κ : Type) where
  config : S3Config
  valid : Validated config
  pool : κ
  chrono : Timestamp → Option Timestamp

/-! ## Machine arithmetic -/

/-- A result of `u64` or `usize` arithmetic. -/
def wrap (n : ℕ) : ℕ := n % 2 ^ 64

/-- `div_ceil`. -/
def divCeil (a b : ℕ) : ℕ := if a % b = 0 then a / b else a / b + 1

/-- `as i32`. -/
def asI32 (n : ℕ) : ℤ := Int.bmod n (2 ^ 32)

/-- `as u64` of an `i64`. -/
def asU64 (n : ℤ) : ℕ := (n % 2 ^ 64).toNat

/-- The `i`-th interval of `total` cut into chunks of `size`. -/
def interval (size total i : ℕ) : ℕ × ℕ :=
  let start := wrap (i * size)
  (start, min (wrap (start + size)) total)

/-- `Bytes::slice`. -/
def slice (body : Bytes) (r : ℕ × ℕ) : Bytes := (body.drop r.1).take (r.2 - r.1)

/-! ## Requests and metrics -/

variable {κ : Type} {α : Type}

/-- `send().await.map_err(|e| classify(&e))`, in a future. -/
def Leaf.send (r : Request) : Leaf (S3 κ) (S3Result r.Output) := do
  let reply ← Leaf.query (S := S3 κ) (.http r)
  return reply.mapError classify

/-- `send().await.map_err(|e| classify(&e))`. -/
def send (r : Request) : Prog (S3 κ) (S3Result r.Output) := Prog.wait (Leaf.send r)

/-- `body.collect().await.map(|b| b.into_bytes())` with its `map_err`. -/
def Leaf.collect (stream : Bytes) (label : String) : Leaf (S3 κ) (S3Result Bytes) := do
  let r ← Leaf.query (S := S3 κ) (.collect stream)
  return r.mapError fun e => .backend .other s!"{label}: {e}"

/-- `Result::is_ok`. -/
def isOk : S3Result α → Bool
  | .ok _ => true
  | .error _ => false

/-- `start_operation`. -/
def startOp (op : String) : Prog (S3 κ) Unit := do
  let now ← Prog.clock
  Prog.log (.startOperation op now)

/-- `m.err(&e)`. -/
def recordErr (e : S3Error) : Prog (S3 κ) Unit := do
  let now ← Prog.clock
  Prog.log (.err e now)

/-- `m.ok()`. -/
def recordOk : Prog (S3 κ) Unit := do
  let now ← Prog.clock
  let later ← Prog.clock
  Prog.log (.ok now later)

/-- `finish`. -/
def finish (r : S3Result α) : Prog (S3 κ) Unit :=
  match r with
  | .ok _ => recordOk
  | .error e => recordErr e

/-- `if let Ok(data) = &r { m.recv(data.len() as u64); }`. -/
def received (r : S3Result Bytes) : Prog (S3 κ) Unit :=
  match r with
  | .ok data => Prog.log (.recv data.length)
  | .error _ => return ()

namespace S3Client

variable (self : S3Client κ)

/-- `checksum`. -/
def checksum : Option ChecksumAlgorithm := if self.config.uploadChecksum then some .crc32c else none

/-- `let (_p, qw) = acquire.await?; m.add_queue_wait(qw);` followed by the rest of the scope of the
guard. `acquire` is `self.pool.read()`, `write()`, `read_bulk(n)` or `write_bulk(n)`. -/
def guarded (h : Half) (a : Acquire) (rest : Prog (S3 κ) (S3Result α)) : Prog (S3 κ) (S3Result α) :=
  .acquire (self.pool, h) a fun
    | none => return .error (a.timeoutError h.name)
    | some wait => do
      Prog.log (.addQueueWait wait)
      let r ← rest
      .release (.ret r)

/-! ## Single requests -/

/-- `stat`. -/
def stat (key : String) : Prog (S3 κ) (S3Result ObjectMetadata) :=
  self.guarded .read .one do
    let r ← send (.headObject self.config.bucket key)
    return do
      let r ← r
      return {
        contentLength := asU64 (r.contentLength.getD 0)
        contentType := r.contentType
        etag := r.eTag
        lastModified := r.lastModified.bind self.chrono }

/-- `simple_put`. -/
def simplePut (key : String) (body : Bytes) : Prog (S3 κ) (S3Result Unit) :=
  self.guarded .write .one do
    let t ← Prog.clock
    let r ← send (.putObject self.config.bucket key body self.checksum)
    let now ← Prog.clock
    Prog.log (.http "put" (now - t) (isOk r))
    Prog.log (.ttfb "put" (now - t))
    return r

/-- The request of `simple_get` and the body of its reply. -/
def getBody (key : String) : Leaf (S3 κ) (S3Result Bytes) := do
  let t ← Leaf.clock
  let r ← Leaf.send (.getObject self.config.bucket key none)
  let now ← Leaf.clock
  Leaf.log (.ttfb "get" (now - t))
  let r ← match r with
    | .ok output => Leaf.collect output.body "body"
    | .error e => pure (.error e)
  let now ← Leaf.clock
  Leaf.log (.http "get" (now - t) (isOk r))
  return r

/-- `simple_get`. -/
def simpleGet (key : String) : Prog (S3 κ) (S3Result Bytes) :=
  self.guarded .read .one (Prog.wait (self.getBody key))

/-! ## Listing -/

/-- What a page adds to the result. -/
def pageEntries (resp : ListObjectsV2Output) : List ObjectEntry :=
  (resp.contents.getD []).map (fun o => {
    key := o.key.getD ""
    size := asU64 (o.size.getD 0)
    etag := o.eTag
    lastModified := o.lastModified.bind self.chrono }) ++
  (resp.commonPrefixes.getD []).filterMap fun p => p.pfx.map fun k => ⟨k, 0, none, none⟩

/-- One turn of the loop of `paginated_list`, over the entries and the token so far. -/
def listPage (pfx : String) (recursive : Bool) (s : List ObjectEntry × Option String) :
    Leaf (S3 κ) ((List ObjectEntry × Option String) ⊕ S3Result (List ObjectEntry)) := do
  let delimiter := if recursive then none else some "/"
  match ← Leaf.send (.listObjectsV2 self.config.bucket pfx delimiter s.2) with
  | .error e => return .inr (.error e)
  | .ok resp =>
    let entries := s.1 ++ self.pageEntries resp
    match resp.isTruncated, resp.nextContinuationToken with
    | some true, some t => return .inl (entries, some t)
    | _, _ => return .inr (.ok entries)

/-- `paginated_list`. -/
def paginatedList (pfx : String) (recursive : Bool) : Prog (S3 κ) (S3Result (List ObjectEntry)) :=
  Prog.repeat (self.listPage pfx recursive) ([], none)

/-! ## Multipart upload -/

/-- The future of one part. -/
def uploadPart (key uid : String) (pn : ℤ) (chunk : Bytes) :
    Leaf (S3 κ) (S3Result CompletedPart) := do
  let t ← Leaf.clock
  let r ← Leaf.send (.uploadPart self.config.bucket key uid pn chunk self.checksum)
  let now ← Leaf.clock
  Leaf.log (.http "put_part" (now - t) (isOk r))
  Leaf.log (.ttfb "put_part" (now - t))
  return match r with
    | .error e => .error e
    | .ok output => match output.eTag with
      | none => .error (.backend .other "no etag")
      | some etag => .ok ⟨pn, etag⟩

/-- `chunks`: the part numbers and the slices. -/
def chunks (body : Bytes) : List (ℤ × Bytes) :=
  let cs := self.config.chunkSize.toNat
  (List.range (divCeil body.length cs)).map fun i =>
    (asI32 (i + 1), slice body (interval cs body.length i))

/-- The parts in completion order, and the first error. -/
def collectParts : List (S3Result CompletedPart) → List CompletedPart × Option S3Error
  | [] => ([], none)
  | .ok p :: rs => (p :: (collectParts rs).1, (collectParts rs).2)
  | .error e :: rs => ((collectParts rs).1, some e)

/-- `sort_by_key(|p| p.part_number)`. -/
def sortParts (parts : List CompletedPart) : List CompletedPart :=
  parts.insertionSort fun a b => a.partNumber ≤ b.partNumber

/-- `multipart_put`. -/
def multipartPut (key : String) (body : Bytes) : Prog (S3 κ) (S3Result Unit) :=
  let wc := self.config.writeConcurrency.toNat
  let bucket := self.config.bucket
  self.guarded .write (.bulk wc) do
    match ← send (.createMultipartUpload bucket key) with
    | .error e => return .error e
    | .ok ⟨none⟩ => return .error (.backend .other "no upload_id")
    | .ok ⟨some uid⟩ =>
      let results ← Prog.bufferUnordered wc
        ((self.chunks body).map fun c => self.uploadPart key uid c.1 c.2)
      match collectParts results with
      | (_, some e) =>
        -- a failed abort is only logged
        let _ ← send (.abortMultipartUpload bucket key uid)
        return .error e
      | (parts, none) =>
        send (.completeMultipartUpload bucket key uid (sortParts parts))

/-! ## Range download -/

/-- The future of one range. -/
def rangePart (key : String) (idx : ℕ) (r : ℕ × ℕ) : Leaf (S3 κ) (S3Result (ℕ × Bytes)) := do
  let t ← Leaf.clock
  let reply ← Leaf.send (.getObject self.config.bucket key (some ⟨r.1, r.2 - 1⟩))
  let now ← Leaf.clock
  Leaf.log (.ttfb "get_range" (now - t))
  match reply with
  | .error e => return .error e
  | .ok output =>
    match ← Leaf.collect output.body "range body" with
    | .error e => return .error e
    | .ok data =>
      let now ← Leaf.clock
      Leaf.log (.http "get_range" (now - t) true)
      return .ok (idx, data)

/-- The results in range order, or the first error in completion order. -/
def reassemble (results : List (S3Result (ℕ × Bytes))) : S3Result Bytes := do
  let parts ← results.mapM id
  return ((parts.insertionSort fun a b => a.1 ≤ b.1).map Prod.snd).flatten

/-- `range_get`. -/
def rangeGet (key : String) (total : ℕ) : Prog (S3 κ) (S3Result Bytes) :=
  let rc := self.config.readConcurrency.toNat
  let rs := self.config.chunkSize.toNat
  self.guarded .read (.bulk rc) do
    let results ← Prog.bufferUnordered rc
      ((List.range (divCeil total rs)).map fun i => self.rangePart key i (interval rs total i))
    return reassemble results

/-! ## The public operations -/

/-- `put_object`. -/
def putObject (key : String) (body : Body) : Prog (S3 κ) (S3Result Unit) := do
  startOp "put"
  Prog.log (.sent body.data.length)
  let r ←
    if self.config.multipartThreshold.toNat < body.data.length then self.multipartPut key body.data
    else self.simplePut key body.data
  finish r
  return r

/-- `get_object`. -/
def getObject (key : String) : Prog (S3 κ) (S3Result Bytes) := do
  startOp "get"
  match ← self.stat key with
  | .error e =>
    recordErr e
    return .error e
  | .ok info =>
    let r ←
      if self.config.multipartThreshold.toNat < info.contentLength then
        self.rangeGet key info.contentLength
      else self.simpleGet key
    received r
    finish r
    return r

/-- `delete_object`. -/
def deleteObject (key : String) : Prog (S3 κ) (S3Result Unit) := do
  startOp "delete"
  self.guarded .write .one do
    let r ← send (.deleteObject self.config.bucket key)
    finish r
    return r

/-- `head_object`. -/
def headObject (key : String) : Prog (S3 κ) (S3Result ObjectMetadata) := do
  startOp "head"
  let r ← self.stat key
  finish r
  return r

/-- `list_objects`. -/
def listObjects (pfx : String) (recursive : Bool) : Prog (S3 κ) (S3Result (List ObjectEntry)) := do
  startOp "list"
  self.guarded .read .one do
    let r ← self.paginatedList pfx recursive
    finish r
    return r

end S3Client

/-- A call of one of the five operations. -/
inductive Op
  | put (key : String) (body : Body)
  | get (key : String)
  | delete (key : String)
  | head (key : String)
  | list (pfx : String) (recursive : Bool)

/-- What a call returns when it succeeds. -/
inductive Value
  | unit
  | data (d : Bytes)
  | metadata (info : ObjectMetadata)
  | entries (l : List ObjectEntry)
  deriving DecidableEq

/-- The call as a program. -/
def Op.program (self : S3Client κ) : Op → Prog (S3 κ) (S3Result Value)
  | .put key body => do return (← self.putObject key body).map fun _ => .unit
  | .get key => do return (← self.getObject key).map .data
  | .delete key => do return (← self.deleteObject key).map fun _ => .unit
  | .head key => do return (← self.headObject key).map .metadata
  | .list pfx recursive => do return (← self.listObjects pfx recursive).map .entries

/-- The half of the pool that a call uses. -/
def Op.half : Op → Half
  | .put .. | .delete .. => .write
  | .get .. | .head .. | .list .. => .read

/-- The label of a call. -/
def Op.label : Op → String
  | .put .. => "put"
  | .get .. => "get"
  | .delete .. => "delete"
  | .head .. => "head"
  | .list .. => "list"

end S3o
