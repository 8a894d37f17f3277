import Mathlib.Data.List.Basic
import Mathlib.Data.List.Infix

/-!
# Request bodies

A request's body is read from the client once and stored, in memory or in a file, so that
each attempt to relay it reads it anew.  The storage is chosen by the settings of the disk
cache at that moment; it is a `bytes.Reader` over the data or an open file.

`attempts` is a request with its attempts, each of which gets the storage and then reads as
it likes.
-/

namespace DazeApi.Body

inductive Err
  -- "body storage is closed"
  | closed
  | eof
  -- "negative position" of a `bytes.Reader`, "invalid argument" of a file
  | negativePosition
  | unexpectedEof
  -- "request body too large"
  | tooLarge
  -- "disk storage creation failed"
  | disk
  -- the connection of the client
  | client
  deriving DecidableEq

inductive Whence
  | start
  | current
  | ends
  deriving DecidableEq

/-! ## Readers -/

/-- `bytes.Reader`. -/
structure Reader where
  s : List UInt8
  i : Nat

/-- A read into a buffer of `n` bytes. -/
def Reader.read (r : Reader) (n : Nat) : Except Err (List UInt8) × Reader :=
  if r.s.length ≤ r.i then (.error .eof, r)
  else (.ok ((r.s.drop r.i).take n), { r with i := r.i + min n (r.s.length - r.i) })

def Reader.seek (r : Reader) (offset : Int) (whence : Whence) : Except Err Int × Reader :=
  let abs :=
    match whence with
    | .start => offset
    | .current => r.i + offset
    | .ends => r.s.length + offset
  if abs < 0 then (.error .negativePosition, r) else (.ok abs, { r with i := abs.toNat })

/-- `os.File`: a regular file gives all it has at once. -/
structure File where
  content : List UInt8
  pos : Nat

def File.read (f : File) (n : Nat) : Except Err (List UInt8) × File :=
  if n = 0 then (.ok [], f)
  else if (f.content.drop f.pos).isEmpty then (.error .eof, f)
  else (.ok ((f.content.drop f.pos).take n), { f with pos := f.pos + min n (f.content.length - f.pos) })

def File.seek (f : File) (offset : Int) (whence : Whence) : Except Err Int × File :=
  let abs :=
    match whence with
    | .start => offset
    | .current => f.pos + offset
    | .ends => f.content.length + offset
  if abs < 0 then (.error .negativePosition, f) else (.ok abs, { f with pos := abs.toNat })

/-- `io.ReadFull` into a buffer of `n` bytes. -/
def File.readFull (f : File) (n : Nat) : Except Err (List UInt8) × File :=
  if n = 0 then (.ok [], f)
  else
    match f.read n with
    | (.error err, f) => (.error err, f)
    | (.ok b, f) => if b.length = n then (.ok b, f) else (.error .unexpectedEof, f)

/-! ## The storages -/

structure MemoryStorage where
  data : List UInt8
  reader : Reader
  size : Nat
  closed : Bool

structure DiskStorage where
  file : File
  size : Nat
  closed : Bool

inductive BodyStorage
  | memory (m : MemoryStorage)
  | disk (d : DiskStorage)

def newMemoryStorage (data : List UInt8) : MemoryStorage :=
  { data := data, reader := ⟨data, 0⟩, size := data.length, closed := false }

/-- `diskStorage.Bytes`, with the position kept. -/
def DiskStorage.bytes (d : DiskStorage) : Except Err (List UInt8) × DiskStorage :=
  if d.closed then (.error .closed, d)
  else
    match d.file.seek 0 .current with
    | (.error err, f) => (.error err, { d with file := f })
    | (.ok currentPos, f) =>
        match f.seek 0 .start with
        | (.error err, f) => (.error err, { d with file := f })
        | (.ok _, f) =>
            match f.readFull d.size with
            | (.error err, f) => (.error err, { d with file := f })
            | (.ok data, f) =>
                match f.seek currentPos .start with
                | (.error err, f) => (.error err, { d with file := f })
                | (.ok _, f) => (.ok data, { d with file := f })

namespace BodyStorage

def read (n : Nat) : BodyStorage → Except Err (List UInt8) × BodyStorage
  | .memory m =>
      if m.closed then (.error .closed, .memory m)
      else ((m.reader.read n).1, .memory { m with reader := (m.reader.read n).2 })
  | .disk d =>
      if d.closed then (.error .closed, .disk d)
      else ((d.file.read n).1, .disk { d with file := (d.file.read n).2 })

def seek (offset : Int) (whence : Whence) : BodyStorage → Except Err Int × BodyStorage
  | .memory m =>
      if m.closed then (.error .closed, .memory m)
      else
        ((m.reader.seek offset whence).1, .memory { m with reader := (m.reader.seek offset whence).2 })
  | .disk d =>
      if d.closed then (.error .closed, .disk d)
      else ((d.file.seek offset whence).1, .disk { d with file := (d.file.seek offset whence).2 })

def bytes : BodyStorage → Except Err (List UInt8) × BodyStorage
  | .memory m => if m.closed then (.error .closed, .memory m) else (.ok m.data, .memory m)
  | .disk d => (d.bytes.1, .disk d.bytes.2)

def size : BodyStorage → Nat
  | .memory m => m.size
  | .disk d => d.size

def close : BodyStorage → BodyStorage
  | .memory m => .memory { m with closed := true }
  | .disk d => .disk { d with closed := true }

end BodyStorage

/-- `io.ReadAll` over `io.LimitReader`, with `left` bytes of the limit; the buffer has room for
`room k + 1` bytes when `k` are read.  `none`: no fuel. -/
def readAll (room : Nat → Nat) : Nat → Nat → List UInt8 → BodyStorage →
    Option (Except Err (List UInt8)) × BodyStorage
  | 0, _, _, s => (none, s)
  | fuel + 1, left, acc, s =>
      if left = 0 then (some (.ok acc), s)
      else
        match s.read (min (room acc.length + 1) left) with
        | (.error .eof, s) => (some (.ok acc), s)
        | (.error err, s) => (some (.error err), s)
        | (.ok b, s) => readAll room fuel (left - b.length) (acc ++ b) s

/-- `ReadLimitedBytes`; every read takes a byte of the limit, so the fuel lasts. -/
def readLimitedBytes (room : Nat → Nat) (s : BodyStorage) (maxBytes : Int) :
    Option (Except Err (List UInt8 × Bool)) × BodyStorage :=
  let maxBytes := if maxBytes ≤ 0 then 1 else maxBytes.toNat
  match readAll room (maxBytes + 2) (maxBytes + 1) [] s with
  | (none, s) => (none, s)
  | (some (.error err), s) => (some (.error err), s)
  | (some (.ok data), s) =>
      if data.length ≤ maxBytes then (some (.ok (data, false)), s)
      else (some (.ok (data.take maxBytes, true)), s)

def readBodyStoragePreview (room : Nat → Nat) (s : BodyStorage) (maxBytes : Int) :
    Option (Except Err (List UInt8 × Bool)) × BodyStorage :=
  match s.seek 0 .current with
  | (.error err, s) => (some (.error err), s)
  | (.ok currentPos, s) =>
      match s.seek 0 .start with
      | (.error err, s) => (some (.error err), s)
      | (.ok _, s) =>
          match readLimitedBytes room s maxBytes with
          | (preview, s) =>
              match s.seek currentPos .start with
              | (.error err, s) => (some (.error err), s)
              | (.ok _, s) => (preview, s)

/-! ## What a caller does with a storage -/

inductive Op
  /-- A read into a buffer, which is not empty, of `n + 1` bytes. -/
  | read (n : Nat)
  | seek (offset : Int) (whence : Whence)
  | bytes
  | preview (maxBytes : Int)
  | size
  | close

inductive Out
  | data (r : Except Err (List UInt8))
  | pos (r : Except Err Int)
  | preview (r : Option (Except Err (List UInt8 × Bool)))
  | size (n : Nat)
  | closed

def step (room : Nat → Nat) (s : BodyStorage) : Op → Out × BodyStorage
  | .read n => (.data (s.read (n + 1)).1, (s.read (n + 1)).2)
  | .seek offset whence => (.pos (s.seek offset whence).1, (s.seek offset whence).2)
  | .bytes => (.data s.bytes.1, s.bytes.2)
  | .preview maxBytes =>
      (.preview (readBodyStoragePreview room s maxBytes).1, (readBodyStoragePreview room s maxBytes).2)
  | .size => (.size s.size, s)
  | .close => (.closed, s.close)

def run (room : Nat → Nat) (s : BodyStorage) : List Op → List Out × BodyStorage
  | [] => ([], s)
  | op :: ops =>
      ((step room s op).1 :: (run room (step room s op).2 ops).1, (run room (step room s op).2 ops).2)

/-! ## Making a storage -/

/-- The disk cache as a check sees it: its settings and what it holds. -/
structure Cache where
  enabled : Bool
  thresholdBytes : Int
  maxSizeBytes : Int
  currentUsage : Int

def Cache.isAvailable (c : Cache) (requestSize : Int) : Bool :=
  c.enabled && c.currentUsage + requestSize ≤ c.maxSizeBytes

/-- The request's body: its bytes, and whether the connection breaks behind them. -/
structure Client where
  body : List UInt8
  broken : Bool

/-- Reading at most `limit` bytes up to the end. -/
def Client.readLimited (c : Client) (limit : Nat) : Except Err (List UInt8) :=
  if limit ≤ c.body.length then .ok (c.body.take limit)
  else if c.broken then .error .client
  else .ok c.body

/-- What fails of a new file: to create it, to write it, to go back to its beginning. -/
structure DiskIo where
  create : Bool
  write : Bool
  rewind : Bool

def DiskIo.works (io : DiskIo) : Bool := !io.create && !io.write && !io.rewind

/-- What the storage is made with: the cache at the first and at the second check, and the
file. -/
structure Making where
  first : Cache
  second : Cache
  io : DiskIo

def newDiskStorage (data : List UInt8) (io : DiskIo) : Except Err DiskStorage :=
  if io.create || io.write || io.rewind then .error .disk
  else .ok { file := ⟨data, 0⟩, size := data.length, closed := false }

def newDiskStorageFromReader (client : Client) (maxBytes : Nat) (io : DiskIo) :
    Except Err DiskStorage :=
  if io.create then .error .disk
  else
    match client.readLimited (maxBytes + 1) with
    | .error _ => .error .disk
    | .ok data =>
        if io.write then .error .disk
        else if maxBytes < data.length then .error .tooLarge
        else if io.rewind then .error .disk
        else .ok { file := ⟨data, 0⟩, size := data.length, closed := false }

/-- `CreateBodyStorage` falls back to memory. -/
def createBodyStorage (cache : Cache) (io : DiskIo) (data : List UInt8) : BodyStorage :=
  if cache.enabled && cache.thresholdBytes ≤ data.length && cache.isAvailable data.length then
    match newDiskStorage data io with
    | .error _ => .memory (newMemoryStorage data)
    | .ok d => .disk d
  else .memory (newMemoryStorage data)

/-- The body goes to a file as it is read. -/
def Cache.streams (c : Cache) (contentLength : Int) : Bool :=
  c.enabled && 0 < contentLength && c.thresholdBytes ≤ contentLength && c.isAvailable contentLength

def createBodyStorageFromReader (m : Making) (client : Client) (contentLength : Int)
    (maxBytes : Nat) : Except Err BodyStorage :=
  if m.first.streams contentLength then
    (newDiskStorageFromReader client maxBytes m.io).map .disk
  else
    match client.readLimited (maxBytes + 1) with
    | .error err => .error err
    | .ok data =>
        if maxBytes < data.length then .error .tooLarge
        else .ok (createBodyStorage m.second m.io data)

/-! ## A request and its attempts -/

structure Context where
  client : Client
  contentLength : Int
  storage : Option BodyStorage

/-- `MaxRequestBodyMB`, in bytes. -/
def maxRequestBody (maxMB : Int) : Nat :=
  (if maxMB ≤ 0 then 128 else maxMB.toNat) <<< 20

/-- `GetRequestBody`: the storage of the request, at its beginning.  The client is read once. -/
def getRequestBody (maxMB : Int) (m : Making) (c : Context) : Except Err BodyStorage × Context :=
  match c.storage with
  | some s =>
      match s.seek 0 .start with
      | (.error err, s) => (.error err, { c with storage := some s })
      | (.ok _, s) => (.ok s, { c with storage := some s })
  | none =>
      let made := createBodyStorageFromReader m c.client c.contentLength (maxRequestBody maxMB)
      -- the body of the client is closed, and a read of it fails from now on
      let c := { c with client := ⟨[], true⟩ }
      match made with
      | .error err => (.error err, c)
      | .ok s => (.ok s, { c with storage := some s })

/-- One attempt: it gets the storage and uses it. -/
structure Use where
  making : Making
  ops : List Op

def attempt (room : Nat → Nat) (maxMB : Int) (c : Context) (u : Use) :
    Except Err (List Out) × Context :=
  match getRequestBody maxMB u.making c with
  | (.error err, c) => (.error err, c)
  | (.ok s, c) => (.ok (run room s u.ops).1, { c with storage := some (run room s u.ops).2 })

def attempts (room : Nat → Nat) (maxMB : Int) (c : Context) : List Use → List (Except Err (List Out))
  | [] => []
  | u :: us => (attempt room maxMB c u).1 :: attempts room maxMB (attempt room maxMB c u).2 us

end DazeApi.Body
