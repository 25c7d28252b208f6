import Mathlib.Data.Int.Notation
import S3o.Error

/-!
# Requests, replies and results

The parts of the SDK's requests and outputs that `client.rs` sets and reads, and the results of
`types.rs`. A request is awaited for its output; the output of a GET is a stream of bytes that is
awaited again (`Await.collect`).
-/

namespace S3o

abbrev Bytes := List UInt8

/-- The largest length of a `Bytes` value. -/
def isizeMax : ℕ := 2 ^ 63 - 1

/-- A `Bytes` value handed to `put_object`. -/
structure Body where
  data : Bytes
  len_le : data.length ≤ isizeMax

/-- The seconds and nanoseconds of an SDK timestamp, and of a `chrono::DateTime`. -/
structure Timestamp where
  secs : ℤ
  nanos : ℕ
  deriving DecidableEq

/-- `ObjectMetadata`. -/
structure ObjectMetadata where
  contentLength : ℕ
  contentType : Option String
  etag : Option String
  lastModified : Option Timestamp
  deriving DecidableEq

/-- `ObjectEntry`. -/
structure ObjectEntry where
  key : String
  size : ℕ
  etag : Option String
  lastModified : Option Timestamp
  deriving DecidableEq

inductive ChecksumAlgorithm
  | crc32c
  deriving DecidableEq

/-- A completed part, as `AwsPart::builder()` is given it. -/
structure CompletedPart where
  partNumber : ℤ
  eTag : String
  deriving DecidableEq

/-- The bounds of a `bytes=a-b` header, both inclusive. -/
structure ByteRange where
  first : ℕ
  last : ℕ
  deriving DecidableEq

/-- The requests the client sends. -/
inductive Request
  | putObject (bucket key : String) (body : Bytes) (checksum : Option ChecksumAlgorithm)
  | getObject (bucket key : String) (range : Option ByteRange)
  | headObject (bucket key : String)
  | deleteObject (bucket key : String)
  | listObjectsV2 (bucket pfx : String) (delimiter continuationToken : Option String)
  | createMultipartUpload (bucket key : String)
  | uploadPart (bucket key uploadId : String) (partNumber : ℤ) (body : Bytes)
      (checksum : Option ChecksumAlgorithm)
  | completeMultipartUpload (bucket key uploadId : String) (parts : List CompletedPart)
  | abortMultipartUpload (bucket key uploadId : String)
  deriving DecidableEq

structure HeadObjectOutput where
  contentLength : Option ℤ
  contentType : Option String
  eTag : Option String
  lastModified : Option Timestamp

/-- `body` is what the stream of the reply carries. -/
structure GetObjectOutput where
  body : Bytes

structure CreateMultipartUploadOutput where
  uploadId : Option String

structure UploadPartOutput where
  eTag : Option String

/-- One entry of `contents`. -/
structure ListedObject where
  key : Option String
  size : Option ℤ
  eTag : Option String
  lastModified : Option Timestamp

structure CommonPrefix where
  pfx : Option String

structure ListObjectsV2Output where
  contents : Option (List ListedObject)
  commonPrefixes : Option (List CommonPrefix)
  isTruncated : Option Bool
  nextContinuationToken : Option String

/-- The output of a request that succeeds. -/
@[reducible] def Request.Output : Request → Type
  | .putObject .. => Unit
  | .getObject .. => GetObjectOutput
  | .headObject .. => HeadObjectOutput
  | .deleteObject .. => Unit
  | .listObjectsV2 .. => ListObjectsV2Output
  | .createMultipartUpload .. => CreateMultipartUploadOutput
  | .uploadPart .. => UploadPartOutput
  | .completeMultipartUpload .. => Unit
  | .abortMultipartUpload .. => Unit

/-- What a future of the client waits for: a request, or the rest of a body. -/
inductive Await
  | http (r : Request)
  | collect (stream : Bytes)

/-- The answers: a reply or an SDK error, and the bytes or the text of a body error. -/
@[reducible] def Await.Answer : Await → Type
  | .http r => Except SdkError r.Output
  | .collect _ => Except String Bytes

/-- **The client never waits for something that cannot be answered.** -/
instance (q : Await) : Nonempty q.Answer :=
  match q with
  | .http _ => ⟨.error (.other "")⟩
  | .collect _ => ⟨.error ""⟩

end S3o
