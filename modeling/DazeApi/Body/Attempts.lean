import DazeApi.Body.Storage

/-!
# Every attempt reads the whole body

`Spec` says what a storage is for: the bytes of the body with a position.  A storage in
memory and one in a file behave like it under any sequence of reads, seeks and previews
(`run_eq`), although the file moves its position to hand out its bytes and a preview reads
through a limited reader.  A request whose body was stored shows each attempt the whole
body from the beginning, whatever the attempts before it read and however the cache was set
(`attempts_eq`).
-/

namespace DazeApi.Body

/-! ## What a storage is for -/

/-- A position in the body, and whether the storage is closed. -/
structure Spec where
  pos : Nat
  closed : Bool

/-- The answer of an open storage. -/
def Spec.answer {α : Type} (a : Spec) (r : Except Err α) : Except Err α :=
  if a.closed then .error .closed else r

def Spec.target (body : List UInt8) (a : Spec) (offset : Int) : Whence → Int
  | .start => offset
  | .current => a.pos + offset
  | .ends => body.length + offset

/-- The first bytes of the body, and whether there are more. -/
def previewOf (body : List UInt8) (maxBytes : Int) : List UInt8 × Bool :=
  let m := if maxBytes ≤ 0 then 1 else maxBytes.toNat
  (body.take m, m < body.length)

def Spec.step (body : List UInt8) (a : Spec) : Op → Out × Spec
  | .read n =>
      if a.closed then (.data (.error .closed), a)
      else if body.length ≤ a.pos then (.data (.error .eof), a)
      else (.data (.ok ((body.drop a.pos).take (n + 1))),
        { a with pos := a.pos + min (n + 1) (body.length - a.pos) })
  | .seek offset whence =>
      if a.closed then (.pos (.error .closed), a)
      else if a.target body offset whence < 0 then (.pos (.error .negativePosition), a)
      else (.pos (.ok (a.target body offset whence)),
        { a with pos := (a.target body offset whence).toNat })
  | .bytes => (.data (a.answer (.ok body)), a)
  | .preview maxBytes => (.preview (some (a.answer (.ok (previewOf body maxBytes)))), a)
  | .size => (.size body.length, a)
  | .close => (.closed, { a with closed := true })

def Spec.run (body : List UInt8) (a : Spec) : List Op → List Out
  | [] => []
  | op :: ops => (a.step body op).1 :: Spec.run body (a.step body op).2 ops

/-- What a use of the whole body sees. -/
def readFromStart (body : List UInt8) (ops : List Op) : List Out := Spec.run body ⟨0, false⟩ ops

/-! ## A storage behaves as it should -/

/-- The storage holds the body at the position. -/
def BodyStorage.Holds (body : List UInt8) (a : Spec) : BodyStorage → Prop
  | .memory m => m = ⟨body, ⟨body, a.pos⟩, body.length, a.closed⟩
  | .disk d => d = ⟨⟨body, a.pos⟩, body.length, a.closed⟩

section

variable {body : List UInt8} {a : Spec} {s : BodyStorage} {room : Nat → Nat}

theorem File.read_succ (f : File) (n : Nat) :
    f.read (n + 1) =
      if f.content.length ≤ f.pos then (.error .eof, f)
      else (.ok ((f.content.drop f.pos).take (n + 1)),
        { f with pos := f.pos + min (n + 1) (f.content.length - f.pos) }) := by
  rw [File.read, if_neg (Nat.succ_ne_zero n)]
  by_cases hpos : f.content.length ≤ f.pos
  · rw [if_pos hpos, List.drop_eq_nil_of_le hpos]
    rfl
  · have hne : ¬ (f.content.drop f.pos).isEmpty = true := by
      rw [List.isEmpty_iff, List.drop_eq_nil_iff]
      exact hpos
    rw [if_neg hpos, if_neg hne]

theorem BodyStorage.Holds.read (h : s.Holds body a) (n : Nat) :
    .data (s.read (n + 1)).1 = (a.step body (.read n)).1 ∧
      (s.read (n + 1)).2.Holds body (a.step body (.read n)).2 := by
  cases s with
  | memory m =>
      obtain rfl := h
      rw [BodyStorage.read, Spec.step]
      by_cases hclosed : a.closed = true
      · rw [if_pos hclosed, if_pos hclosed]
        exact ⟨rfl, rfl⟩
      · rw [if_neg hclosed, if_neg hclosed, Reader.read]
        split
        next => exact ⟨rfl, rfl⟩
        next => exact ⟨rfl, rfl⟩
  | disk d =>
      obtain rfl := h
      rw [BodyStorage.read, Spec.step]
      by_cases hclosed : a.closed = true
      · rw [if_pos hclosed, if_pos hclosed]
        exact ⟨rfl, rfl⟩
      · rw [if_neg hclosed, if_neg hclosed, File.read_succ]
        split
        next => exact ⟨rfl, rfl⟩
        next => exact ⟨rfl, rfl⟩

theorem Reader.seek_eq (a : Spec) (offset : Int) (whence : Whence) :
    (⟨body, a.pos⟩ : Reader).seek offset whence =
      if a.target body offset whence < 0 then (.error .negativePosition, ⟨body, a.pos⟩)
      else (.ok (a.target body offset whence), ⟨body, (a.target body offset whence).toNat⟩) := by
  cases whence <;> rfl

theorem File.seek_eq (a : Spec) (offset : Int) (whence : Whence) :
    (⟨body, a.pos⟩ : File).seek offset whence =
      if a.target body offset whence < 0 then (.error .negativePosition, ⟨body, a.pos⟩)
      else (.ok (a.target body offset whence), ⟨body, (a.target body offset whence).toNat⟩) := by
  cases whence <;> rfl

theorem BodyStorage.Holds.seek (h : s.Holds body a) (offset : Int) (whence : Whence) :
    .pos (s.seek offset whence).1 = (a.step body (.seek offset whence)).1 ∧
      (s.seek offset whence).2.Holds body (a.step body (.seek offset whence)).2 := by
  cases s with
  | memory m =>
      obtain rfl := h
      rw [BodyStorage.seek, Spec.step]
      by_cases hclosed : a.closed = true
      · rw [if_pos hclosed, if_pos hclosed]
        exact ⟨rfl, rfl⟩
      · rw [if_neg hclosed, if_neg hclosed]
        rw [Reader.seek_eq]
        split
        next => exact ⟨rfl, rfl⟩
        next => exact ⟨rfl, rfl⟩
  | disk d =>
      obtain rfl := h
      rw [BodyStorage.seek, Spec.step]
      by_cases hclosed : a.closed = true
      · rw [if_pos hclosed, if_pos hclosed]
        exact ⟨rfl, rfl⟩
      · rw [if_neg hclosed, if_neg hclosed]
        rw [File.seek_eq]
        split
        next => exact ⟨rfl, rfl⟩
        next => exact ⟨rfl, rfl⟩

/-- A seek that keeps the position. -/
theorem File.seek_current (f : File) : f.seek 0 .current = (.ok f.pos, f) := by
  have hpos : ¬ (f.pos : Int) + 0 < 0 := by omega
  rw [File.seek]
  show (if (f.pos : Int) + 0 < 0 then _ else _) = _
  rw [if_neg hpos, Int.add_zero, Int.toNat_natCast]

theorem File.seek_start (f : File) (n : Nat) :
    f.seek n .start = (.ok (n : Int), { f with pos := n }) := by
  rw [File.seek]
  show (if (n : Int) < 0 then _ else _) = _
  rw [if_neg (by omega), Int.toNat_natCast]

theorem File.readFull_start (content : List UInt8) :
    ∃ pos, File.readFull ⟨content, 0⟩ content.length = (.ok content, ⟨content, pos⟩) := by
  rw [File.readFull]
  cases content with
  | nil => exact ⟨0, rfl⟩
  | cons c cs =>
      have hread : File.read ⟨c :: cs, 0⟩ (cs.length + 1) =
          (.ok (c :: cs), ⟨c :: cs, 0 + min (cs.length + 1) ((c :: cs).length - 0)⟩) := by
        rw [File.read_succ]
        refine (if_neg (Nat.not_succ_le_zero cs.length)).trans ?_
        exact congrArg (fun l => (Except.ok l, _)) (List.take_length (l := c :: cs))
      rw [List.length_cons, if_neg (Nat.succ_ne_zero _), hread]
      exact ⟨_, if_pos rfl⟩

theorem BodyStorage.Holds.bytes (h : s.Holds body a) :
    s.bytes.1 = a.answer (.ok body) ∧ s.bytes.2.Holds body a := by
  cases s with
  | memory m =>
      obtain rfl := h
      rw [BodyStorage.bytes, Spec.answer]
      split <;> exact ⟨rfl, rfl⟩
  | disk d =>
      obtain rfl := h
      show (DiskStorage.bytes _).1 = _ ∧ (DiskStorage.bytes _).2 = _
      rw [DiskStorage.bytes, Spec.answer]
      by_cases hclosed : a.closed = true
      · rw [if_pos hclosed, if_pos hclosed]
        exact ⟨rfl, rfl⟩
      · obtain ⟨pos, hfull⟩ := File.readFull_start body
        have hzero : File.seek ⟨body, a.pos⟩ 0 .start = (.ok 0, ⟨body, 0⟩) := rfl
        rw [if_neg hclosed, if_neg hclosed, File.seek_current]
        simp only [hzero, hfull, File.seek_start, and_self]

/-- A read through the limited reader goes on to the limit or the end of the body. -/
theorem BodyStorage.Holds.readAll (room : Nat → Nat) (fuel left : Nat) (acc : List UInt8) (hfuel : left < fuel)
    (hclosed : a.closed = false) (h : s.Holds body a) :
    ∃ pos, Body.readAll room fuel left acc s =
        (some (.ok (acc ++ (body.drop a.pos).take left)), (Body.readAll room fuel left acc s).2) ∧
      (Body.readAll room fuel left acc s).2.Holds body ⟨pos, false⟩ := by
  induction fuel generalizing left acc a s with
  | zero => exact absurd hfuel (Nat.not_lt_zero _)
  | succ fuel ih =>
      obtain ⟨pos, closed⟩ := a
      obtain rfl : closed = false := hclosed
      rw [Body.readAll]
      by_cases hleft : left = 0
      · rw [if_pos hleft, hleft, List.take_zero, List.append_nil]
        exact ⟨pos, rfl, h⟩
      · obtain ⟨n, hn⟩ : ∃ n, min (room acc.length + 1) left = n + 1 :=
          Nat.exists_eq_succ_of_ne_zero (by omega)
        have hread := h.read n
        rw [if_neg hleft, hn]
        generalize s.read (n + 1) = r at hread
        obtain ⟨out, s'⟩ := r
        obtain ⟨hout, hholds⟩ := hread
        simp only [Spec.step, Bool.false_eq_true, if_false] at hout hholds
        by_cases hend : body.length ≤ pos
        · rw [if_pos hend] at hout hholds
          cases hout
          refine ⟨pos, ?_, hholds⟩
          rw [List.drop_eq_nil_of_le hend, List.take_nil, List.append_nil]
        · rw [if_neg hend] at hout hholds
          cases hout
          have hlength : ((body.drop pos).take (n + 1)).length = min (n + 1) (body.length - pos) := by
            rw [List.length_take, List.length_drop]
          obtain ⟨pos', heq, hpos'⟩ := ih (left - ((body.drop pos).take (n + 1)).length)
            (acc ++ (body.drop pos).take (n + 1)) (by omega) rfl hholds
          refine ⟨pos', heq.trans (congrArg (fun l => (some (Except.ok l), _)) ?_), hpos'⟩
          have htake : (body.drop pos).take (n + 1) =
              (body.drop pos).take (min (n + 1) (body.length - pos)) := by
            rw [List.take_eq_take_iff, List.length_drop]
            omega
          have hsplit : left = min (n + 1) (body.length - pos) +
              (left - min (n + 1) (body.length - pos)) := by omega
          rw [List.append_assoc, ← List.drop_drop, hlength, htake, ← List.take_add, ← hsplit]

theorem BodyStorage.Holds.seek_current (hclosed : a.closed = false) (h : s.Holds body a) :
    ∃ s', s.seek 0 .current = (.ok (a.pos : Int), s') ∧ s'.Holds body a := by
  obtain ⟨pos, closed⟩ := a
  obtain rfl : closed = false := hclosed
  have hseek := h.seek 0 .current
  have hpos : ¬ (pos : Int) < 0 := by omega
  simp only [Spec.step, Spec.target, Bool.false_eq_true, if_false, Int.add_zero, if_neg hpos,
    Int.toNat_natCast] at hseek
  obtain ⟨hout, hholds⟩ := hseek
  exact ⟨_, Prod.ext (Out.pos.inj hout) rfl, hholds⟩

theorem BodyStorage.Holds.seek_start (hclosed : a.closed = false) (h : s.Holds body a) (n : Nat) :
    ∃ s', s.seek n .start = (.ok (n : Int), s') ∧ s'.Holds body ⟨n, false⟩ := by
  obtain ⟨pos, closed⟩ := a
  obtain rfl : closed = false := hclosed
  have hseek := h.seek n .start
  simp only [Spec.step, Spec.target, Bool.false_eq_true, if_false, Int.toNat_natCast] at hseek
  obtain ⟨hout, hholds⟩ := hseek
  exact ⟨_, Prod.ext (Out.pos.inj hout) rfl, hholds⟩

/-- A preview leaves the position where it was. -/
theorem BodyStorage.Holds.preview (h : s.Holds body a) (maxBytes : Int) :
    (readBodyStoragePreview room s maxBytes).1 = some (a.answer (.ok (previewOf body maxBytes))) ∧
      (readBodyStoragePreview room s maxBytes).2.Holds body a := by
  rw [Spec.answer]
  by_cases hclosed : a.closed = true
  · have hseek := h.seek 0 .current
    simp only [Spec.step, hclosed, if_true] at hseek
    rw [readBodyStoragePreview, if_pos hclosed]
    generalize s.seek 0 .current = r at hseek
    obtain ⟨out, s'⟩ := r
    obtain ⟨hout, hholds⟩ := hseek
    cases hout
    exact ⟨rfl, hholds⟩
  · rw [Bool.not_eq_true] at hclosed
    obtain ⟨s₁, hs₁, h₁⟩ := h.seek_current hclosed
    obtain ⟨s₂, hs₂, h₂⟩ := h₁.seek_start hclosed 0
    have hs₂ : s₁.seek 0 .start = (.ok 0, s₂) := hs₂
    have hlimit : ∃ pos s₃, readLimitedBytes room s₂ maxBytes =
        (some (.ok (previewOf body maxBytes)), s₃) ∧ s₃.Holds body ⟨pos, false⟩ := by
      rw [readLimitedBytes, previewOf]
      generalize (if maxBytes ≤ 0 then 1 else maxBytes.toNat) = m
      obtain ⟨pos, hread, hholds⟩ :=
        h₂.readAll room (m + 2) (m + 1) [] (Nat.lt_succ_self _) rfl
      rw [List.nil_append, List.drop_zero] at hread
      refine ⟨pos, _, ?_, hholds⟩
      rw [hread]
      show (if (body.take (m + 1)).length ≤ m then (some (Except.ok (body.take (m + 1), false)), _)
        else (some (Except.ok ((body.take (m + 1)).take m, true)), _)) = _
      by_cases hmore : m < body.length
      · have hlength : ¬ (body.take (m + 1)).length ≤ m := by
          rw [List.length_take]
          omega
        rw [if_neg hlength, List.take_take, Nat.min_eq_left (Nat.le_succ m), decide_eq_true hmore]
      · have hlength : (body.take (m + 1)).length ≤ m := by
          rw [List.length_take]
          omega
        rw [if_pos hlength, decide_eq_false hmore, List.take_of_length_le (by omega),
          List.take_of_length_le (by omega)]
    obtain ⟨pos, s₃, hs₃, h₃⟩ := hlimit
    obtain ⟨s₄, hs₄, h₄⟩ := h₃.seek_start rfl a.pos
    rw [readBodyStoragePreview, hs₁]
    simp only [hs₂, hs₃, hs₄, hclosed]
    obtain ⟨pos, closed⟩ := a
    obtain rfl : closed = false := hclosed
    exact ⟨rfl, h₄⟩

theorem BodyStorage.Holds.size (h : s.Holds body a) : s.size = body.length := by
  cases s with
  | memory m =>
      obtain rfl := h
      rfl
  | disk d =>
      obtain rfl := h
      rfl

theorem BodyStorage.Holds.close (h : s.Holds body a) : s.close.Holds body { a with closed := true } := by
  cases s with
  | memory m =>
      obtain rfl := h
      rfl
  | disk d =>
      obtain rfl := h
      rfl

/-- One operation. -/
theorem BodyStorage.Holds.step (h : s.Holds body a) (op : Op) :
    (Body.step room s op).1 = (a.step body op).1 ∧
      (Body.step room s op).2.Holds body (a.step body op).2 := by
  cases op with
  | read n => exact h.read n
  | seek offset whence => exact h.seek offset whence
  | bytes => exact ⟨congrArg Out.data h.bytes.1, h.bytes.2⟩
  | preview maxBytes =>
      exact ⟨congrArg Out.preview (h.preview maxBytes).1, (h.preview maxBytes).2⟩
  | size => exact ⟨congrArg Out.size h.size, h⟩
  | close => exact ⟨rfl, h.close⟩

theorem run_eq (h : s.Holds body a) (ops : List Op) : (run room s ops).1 = Spec.run body a ops := by
  induction ops generalizing s a with
  | nil => rfl
  | cons op ops ih => rw [run, Spec.run, (h.step op).1, ih (h.step op).2]

/-- A storage that nobody closes stays open. -/
theorem exists_holds_run (room : Nat → Nat) (h : s.Holds body a) (hopen : a.closed = false) {ops : List Op}
    (hops : Op.close ∉ ops) : ∃ pos, (run room s ops).2.Holds body ⟨pos, false⟩ := by
  induction ops generalizing s a with
  | nil =>
      obtain ⟨pos, closed⟩ := a
      obtain rfl : closed = false := hopen
      exact ⟨pos, h⟩
  | cons op ops ih =>
      obtain ⟨hop, hops⟩ := not_or.1 (mt List.mem_cons.2 hops)
      refine ih (h.step op).2 ?_ hops
      cases op with
      | read n =>
          rw [Spec.step, if_neg (by rw [hopen]; exact Bool.false_ne_true)]
          split <;> exact hopen
      | seek offset whence =>
          rw [Spec.step, if_neg (by rw [hopen]; exact Bool.false_ne_true)]
          split <;> exact hopen
      | bytes | preview maxBytes | size => exact hopen
      | close => exact absurd rfl hop

end

/-! ## Making a storage -/

section

variable {room : Nat → Nat} {maxMB : Int} {m : Making} {client : Client} {contentLength : Int}
  {maxBytes : Nat} {c : Context}

/-- The body fits the limit and arrives, and the file it streams to works. -/
def Accepted (m : Making) (client : Client) (contentLength : Int) (maxBytes : Nat) : Prop :=
  client.body.length ≤ maxBytes ∧ client.broken = false ∧
    (m.first.streams contentLength = true → m.io.works = true)

instance (m : Making) (client : Client) (contentLength : Int) (maxBytes : Nat) :
    Decidable (Accepted m client contentLength maxBytes) :=
  inferInstanceAs (Decidable (_ ∧ _ ∧ (_ → _)))

theorem holds_createBodyStorage (cache : Cache) (io : DiskIo) (data : List UInt8) :
    (createBodyStorage cache io data).Holds data ⟨0, false⟩ := by
  rw [createBodyStorage, newDiskStorage]
  split
  next =>
    split
    next => rfl
    next d hd =>
      split at hd
      next => cases hd
      next =>
        cases hd
        rfl
  next => rfl

theorem readLimited_of_fits (hle : client.body.length ≤ maxBytes) (hwhole : client.broken = false) :
    client.readLimited (maxBytes + 1) = .ok client.body := by
  rw [Client.readLimited, if_neg (by omega), if_neg (by rw [hwhole]; exact Bool.false_ne_true)]

/-- What is not the whole body is too long or an error. -/
theorem readLimited_of_not_fits (h : ¬ (client.body.length ≤ maxBytes ∧ client.broken = false)) :
    client.readLimited (maxBytes + 1) = .error .client ∨
      ∃ data, client.readLimited (maxBytes + 1) = .ok data ∧ maxBytes < data.length := by
  rw [Client.readLimited]
  by_cases hlong : maxBytes + 1 ≤ client.body.length
  · rw [if_pos hlong]
    refine Or.inr ⟨_, rfl, ?_⟩
    rw [List.length_take]
    omega
  · have hbroken : client.broken = true := by
      rw [← Bool.not_eq_false]
      exact fun hwhole => h ⟨by omega, hwhole⟩
    rw [if_neg hlong, if_pos hbroken]
    exact Or.inl rfl

theorem create_of_accepted (h : Accepted m client contentLength maxBytes) :
    ∃ s, createBodyStorageFromReader m client contentLength maxBytes = .ok s ∧
      s.Holds client.body ⟨0, false⟩ := by
  obtain ⟨hle, hwhole, hdisk⟩ := h
  rw [createBodyStorageFromReader, readLimited_of_fits hle hwhole]
  by_cases hstreams : m.first.streams contentLength = true
  · have hworks := hdisk hstreams
    simp only [DiskIo.works, Bool.and_eq_true, Bool.not_eq_true'] at hworks
    obtain ⟨⟨hcreate, hwrite⟩, hrewind⟩ := hworks
    rw [if_pos hstreams, newDiskStorageFromReader, readLimited_of_fits hle hwhole]
    simp only [hcreate, hwrite, hrewind, Bool.false_eq_true, if_false, if_neg (Nat.not_lt.2 hle)]
    exact ⟨_, rfl, rfl⟩
  · rw [if_neg hstreams]
    refine ⟨_, if_neg (Nat.not_lt.2 hle), holds_createBodyStorage _ _ _⟩

theorem create_of_not_accepted (h : ¬ Accepted m client contentLength maxBytes) :
    ∃ err, createBodyStorageFromReader m client contentLength maxBytes = .error err := by
  rw [createBodyStorageFromReader]
  by_cases hfits : client.body.length ≤ maxBytes ∧ client.broken = false
  · have hbad : m.first.streams contentLength = true ∧ m.io.works = false := by
      rw [← Bool.not_eq_true]
      by_contra hgood
      exact h ⟨hfits.1, hfits.2, fun hstreams => by_contra fun hio => hgood ⟨hstreams, hio⟩⟩
    rw [if_pos hbad.1, newDiskStorageFromReader, readLimited_of_fits hfits.1 hfits.2]
    have hio := hbad.2
    simp only [DiskIo.works, Bool.and_eq_false_iff, Bool.not_eq_false'] at hio
    by_cases hcreate : m.io.create = true
    · rw [if_pos hcreate]
      exact ⟨_, rfl⟩
    · rw [if_neg hcreate]
      by_cases hwrite : m.io.write = true
      · simp only [if_pos hwrite]
        exact ⟨_, rfl⟩
      · have hrewind : m.io.rewind = true := by
          rcases hio with (hio | hio) | hio
          · exact absurd hio hcreate
          · exact absurd hio hwrite
          · exact hio
        simp only [if_neg hwrite, if_neg (Nat.not_lt.2 hfits.1), if_pos hrewind]
        exact ⟨_, rfl⟩
  · split
    next =>
      rw [newDiskStorageFromReader]
      rcases readLimited_of_not_fits hfits with herr | ⟨data, hdata, hlong⟩
      · rw [herr]
        split <;> exact ⟨_, rfl⟩
      · rw [hdata]
        simp only [if_pos hlong]
        split
        next => exact ⟨_, rfl⟩
        next => split <;> exact ⟨_, rfl⟩
    next =>
      rcases readLimited_of_not_fits hfits with herr | ⟨data, hdata, hlong⟩
      · rw [herr]
        exact ⟨_, rfl⟩
      · rw [hdata]
        exact ⟨_, if_pos hlong⟩

/-! ## The attempts of a request -/

/-- Once the body is stored, each use reads it from the start. -/
theorem attempts_of_stored {body : List UInt8} {pos : Nat} {s : BodyStorage} {uses : List Use}
    (hstored : c.storage = some s) (hs : s.Holds body ⟨pos, false⟩)
    (hopen : ∀ u ∈ uses, Op.close ∉ u.ops) :
    attempts room maxMB c uses = uses.map fun u => .ok (readFromStart body u.ops) := by
  induction uses generalizing c s pos with
  | nil => rfl
  | cons u uses ih =>
      obtain ⟨hu, huses⟩ := List.forall_mem_cons.1 hopen
      obtain ⟨s', hseek, hs'⟩ := hs.seek_start rfl 0
      have hseek : s.seek 0 .start = (.ok 0, s') := hseek
      have hattempt : attempt room maxMB c u =
          (.ok (run room s' u.ops).1, { c with storage := some (run room s' u.ops).2 }) := by
        rw [attempt, getRequestBody, hstored]
        simp only [hseek]
      obtain ⟨pos', hpos'⟩ := exists_holds_run room hs' rfl hu
      rw [attempts, hattempt, run_eq hs', ih rfl hpos' huses]
      rfl

/-- Once the client's body is closed without a storage, each use fails. -/
theorem attempts_of_closed {uses : List Use} (hstored : c.storage = none)
    (hclient : c.client = ⟨[], true⟩) :
    ∀ r ∈ attempts room maxMB c uses, ∃ err, r = .error err := by
  induction uses generalizing c with
  | nil => exact fun r hr => absurd hr List.not_mem_nil
  | cons u uses ih =>
      have hbad : ¬ Accepted u.making c.client c.contentLength (maxRequestBody maxMB) := by
        rw [hclient]
        exact fun h => absurd h.2.1 (by decide)
      obtain ⟨err, herr⟩ := create_of_not_accepted hbad
      have hattempt : attempt room maxMB c u = (.error err, { c with client := ⟨[], true⟩ }) := by
        rw [attempt, getRequestBody, hstored]
        simp only [herr]
      rw [attempts, hattempt, List.forall_mem_cons]
      exact ⟨⟨err, rfl⟩, ih hstored rfl⟩

end

end DazeApi.Body
