import Mathlib.Data.Nat.Notation
import S3o.Error

/-!
# Metrics

`metrics.rs`: what one call counts, and the records it hands to the exporter. Instants and durations
are natural numbers of nanoseconds. The methods of `OpMetrics` become `Metric` events, and a call's
events are replayed over its `OpMetrics` at the instants they happened.

* `Record`, with the source's names and labels;
* `OpMetrics.ok`, `OpMetrics.err`, `OpMetrics.drop`: what each exit of a call records;
* `Metric`, `replay`: from the events of a call to its records.
-/

namespace S3o

/-- A value handed to the exporter. A rate is kept as the quotient it is computed from. -/
inductive Measure
  | count (n : ℕ)
  | nanos (n : ℕ)
  | rate (bytes nanos : ℕ)
  deriving DecidableEq

/-- One call of `counter!`, `gauge!` or `histogram!`: the name, the labels and the value. -/
inductive Record
  | counter (name : String) (labels : List (String × String)) (incr : ℕ)
  | gauge (name : String) (labels : List (String × String)) (value : Measure)
  | histogram (name : String) (labels : List (String × String)) (value : Measure)
  deriving DecidableEq

/-- `OpMetrics`. -/
structure OpMetrics where
  op : String
  start : ℕ
  queueWait : ℕ
  bytesSent : ℕ
  bytesRecv : ℕ
  done : Bool

/-- `start_operation`: the counter and the new `OpMetrics`. -/
def startOperation (op : String) (now : ℕ) : OpMetrics × List Record :=
  (⟨op, now, 0, 0, 0, false⟩, [.counter "s3.op.total" [("op", op)] 1])

namespace OpMetrics

variable (self : OpMetrics)

def addQueueWait (d : ℕ) : OpMetrics := { self with queueWait := self.queueWait + d }

def sent (n : ℕ) : OpMetrics := { self with bytesSent := self.bytesSent + n }

def recv (n : ℕ) : OpMetrics := { self with bytesRecv := self.bytesRecv + n }

/-- `record`. -/
def record (status : String) (now : ℕ) : List Record :=
  let latency := now - self.start
  let duration := latency - self.queueWait
  [.histogram "s3.op.latency" [("op", self.op), ("status", status)] (.nanos latency),
    .histogram "s3.op.duration" [("op", self.op), ("status", status)] (.nanos duration)] ++
  if self.queueWait = 0 then []
  else [.histogram "s3.op.queue_wait" [("op", self.op)] (.nanos self.queueWait)]

/-- The byte counters and the rate of `ok`. -/
def bytes (now : ℕ) : List Record :=
  (if 0 < self.bytesSent then [.counter "s3.op.bytes_sent" [("op", self.op)] self.bytesSent]
    else []) ++
  (if 0 < self.bytesRecv then [.counter "s3.op.bytes_recv" [("op", self.op)] self.bytesRecv]
    else []) ++
  let duration := now - self.start - self.queueWait
  let totalBytes := self.bytesSent + self.bytesRecv
  if 0 < totalBytes ∧ duration ≠ 0 then
    [.gauge "s3.op.bytes_rate" [("op", self.op)] (.rate totalBytes duration)]
  else []

/-- `ok`, which reads the clock for `record` and again for the rate. -/
def ok (now later : ℕ) : OpMetrics × List Record :=
  ({ self with done := true },
    self.record "ok" now ++ .counter "s3.op.ok" [("op", self.op)] 1 :: self.bytes later)

/-- `err`. -/
def err (e : S3Error) (now : ℕ) : OpMetrics × List Record :=
  ({ self with done := true },
    self.record "err" now ++
      [.counter "s3.op.err" [("op", self.op), ("kind", e.errorKind.display)] 1])

/-- `Drop for OpMetrics`. -/
def drop (now : ℕ) : List Record :=
  if self.done then []
  else self.record "cancelled" now ++ [.counter "s3.op.cancelled" [("op", self.op)] 1]

end OpMetrics

/-- `http`. -/
def httpRecords (op : String) (nanos : ℕ) (ok : Bool) : List Record :=
  [.counter "s3.http.total" [("op", op)] 1,
    .histogram "s3.http.duration" [("op", op), ("status", if ok then "ok" else "err")]
      (.nanos nanos)]

/-- `ttfb`. -/
def ttfbRecords (op : String) (nanos : ℕ) : List Record :=
  [.histogram "s3.http.ttfb" [("op", op)] (.nanos nanos)]

/-! ## Events and their replay -/

/-- The calls into `metrics.rs`, with the instants and durations they read off the clock. -/
inductive Metric
  | startOperation (op : String) (now : ℕ)
  | addQueueWait (d : ℕ)
  | sent (n : ℕ)
  | recv (n : ℕ)
  | ok (now later : ℕ)
  | err (e : S3Error) (now : ℕ)
  | http (op : String) (nanos : ℕ) (ok : Bool)
  | ttfb (op : String) (nanos : ℕ)
  deriving DecidableEq

/-- The `OpMetrics` of a call, once it exists, and the records so far. -/
structure Tally where
  m : Option OpMetrics
  records : List Record

/-- One event. The methods do nothing without an `OpMetrics`. -/
def Tally.next (s : Tally) : Metric → Tally
  | .startOperation op now =>
    ⟨some (startOperation op now).1, s.records ++ (S3o.startOperation op now).2⟩
  | .addQueueWait d => { s with m := s.m.map (·.addQueueWait d) }
  | .sent n => { s with m := s.m.map (·.sent n) }
  | .recv n => { s with m := s.m.map (·.recv n) }
  | .ok now later => match s.m with
    | none => s
    | some m => ⟨some (m.ok now later).1, s.records ++ (m.ok now later).2⟩
  | .err e now => match s.m with
    | none => s
    | some m => ⟨some (m.err e now).1, s.records ++ (m.err e now).2⟩
  | .http op nanos ok => { s with records := s.records ++ httpRecords op nanos ok }
  | .ttfb op nanos => { s with records := s.records ++ ttfbRecords op nanos }

/-- The `OpMetrics` and the records after the events of a call, newest first. -/
def replay : List Metric → Tally
  | [] => ⟨none, []⟩
  | e :: l => (replay l).next e

/-- What is recorded once the locals of the call are dropped. -/
def Tally.close (s : Tally) (now : ℕ) : List Record :=
  s.records ++ match s.m with
    | none => []
    | some m => m.drop now

end S3o
