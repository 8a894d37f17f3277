import DazeApi.Lib.Lines
import DazeApi.Relay.SseLines

/-!
# Events on the wire

What the helpers of `relay/helper/common.go` write to the client through `CustomEvent`
(`common/custom-event.go`), and how `StreamScannerHandler` of another relay cuts it into lines
again.  Events and pings are written one after the other, each of them whole.
-/

namespace DazeApi.Relay

open Scanner (accepted classify)

/-! ## Writing -/

/-- `dataReplacer`, which replaces a newline by itself. -/
def dataReplacer (s : String) : String :=
  String.ofList (s.toList.flatMap fun c => if c = '\r' then ['\\', 'r'] else [c])

/-- `writeData`, for the text of a `CustomEvent`. -/
def writeData (data : String) : String :=
  dataReplacer data ++ if Text.hasPrefix data "data" then "\n\n" else ""

/-- What is written to the client at once: a call of `PingData`, `StringData`, `ClaudeData`,
`ClaudeChunkData` or `ResponseChunkData`.  `ClaudeData` is given what it marshals. -/
inductive Event where
  | pingData
  | stringData (str : String)
  | claudeData (type data : String)
  | claudeChunkData (type data : String)
  | responseChunkData (type data : String)
deriving DecidableEq, Repr

/-- `Done`. -/
def Event.done : Event := .stringData "[DONE]"

def Event.text : Event → String
  | .pingData => ": PING\n\n"
  | .stringData str => writeData ("data: " ++ str)
  | .claudeData type data | .responseChunkData type data =>
      writeData ("event: " ++ type ++ "\n") ++ writeData ("data: " ++ data)
  | .claudeChunkData type data =>
      writeData ("event: " ++ type ++ "\n") ++ writeData ("data: " ++ data ++ "\n")

/-- The body of the response. -/
def wire (events : List Event) : String := Text.concat (events.map Event.text)

/-! ## Reading -/

/-- `getScannerBufferSize`, in bytes. -/
def getScannerBufferSize (streamScannerMaxBufferMB : Int) : Nat :=
  if streamScannerMaxBufferMB > 0 then streamScannerMaxBufferMB.toNat <<< 20 else 64 <<< 20

/-- The scanner with `bufio.ScanLines`: a line that does not fit into the buffer with its newline
ends the scan, and one carriage return is cut off at the end of a line. -/
def scanLines (bufferSize : Nat) (body : String) : List String :=
  (((Lines.scan '\n' body.toList).map String.ofList).takeWhile
    fun line => Text.byteLength line < bufferSize).map fun line => Text.trimSuffix line "\r"

/-! ## What is meant -/

/-- The payload that an event carries. -/
def Event.data : Event → Option String
  | .pingData => none
  | .stringData data | .claudeData _ data | .claudeChunkData _ data | .responseChunkData _ data =>
      some data

/-- The payloads up to the first `[DONE]`. -/
def said (events : List Event) : List String :=
  (events.filterMap Event.data).takeWhile fun data => data ≠ "[DONE]"

/-- The name of the event is one line, which fits into the buffer. -/
def Event.Named (bufferSize : Nat) : Event → Prop
  | .pingData | .stringData _ => True
  | .claudeData type _ | .claudeChunkData type _ | .responseChunkData type _ =>
      '\n' ∉ type.toList ∧ Text.byteLength ("event: " ++ dataReplacer type) < bufferSize

/-- A text that can be the payload of a line that was written. -/
structure Clean (data : String) : Prop where
  newline : '\n' ∉ data.toList
  carriageReturn : '\r' ∉ data.toList
  trimmed : Text.trimSpace data = data
  nonempty : data ≠ ""
  notDone : Text.hasPrefix data "[DONE]" = false

/-- And that fits into the buffer with `data: ` and the newline. -/
def Carried (bufferSize : Nat) (data : String) : Prop :=
  Clean data ∧ Text.byteLength data + 6 < bufferSize

/-! ## Lines of an event -/

section

variable {bufferSize : Nat} {data : String} {e : Event} {events : List Event}

theorem dataReplacer_append (s t : String) :
    dataReplacer (s ++ t) = dataReplacer s ++ dataReplacer t := by
  apply String.toList_inj.1
  simp [dataReplacer, String.toList_append]

theorem carriageReturn_not_mem_dataReplacer (s : String) : '\r' ∉ (dataReplacer s).toList := by
  rw [dataReplacer, String.toList_ofList, List.mem_flatMap]
  rintro ⟨c, -, hc⟩
  split at hc
  next => exact absurd hc (by decide)
  next hne => exact hne (List.mem_singleton.1 hc).symm

theorem newline_mem_dataReplacer {s : String} (h : '\n' ∈ (dataReplacer s).toList) :
    '\n' ∈ s.toList := by
  rw [dataReplacer, String.toList_ofList, List.mem_flatMap] at h
  obtain ⟨c, hc, hmem⟩ := h
  split at hmem
  next => exact absurd hmem (by decide)
  next => exact (List.mem_singleton.1 hmem) ▸ hc

theorem dataReplacer_eq_self {s : String} (h : '\r' ∉ s.toList) : dataReplacer s = s := by
  apply String.toList_inj.1
  rw [dataReplacer, String.toList_ofList]
  revert h
  generalize s.toList = l
  intro h
  induction l with
  | nil => rfl
  | cons c cs ih =>
      rw [List.mem_cons, not_or] at h
      rw [List.flatMap_cons, if_neg (Ne.symm h.1), ih h.2]
      rfl

theorem hasPrefix_data (s : String) : Text.hasPrefix ("data: " ++ s) "data" = true := by
  rw [Text.hasPrefix_iff, String.toList_append]
  exact (List.prefix_append "data".toList ": ".toList).trans (List.prefix_append _ _)

theorem hasPrefix_event (s : String) : Text.hasPrefix ("event: " ++ s) "data" = false := by
  rw [Text.hasPrefix, String.toList_append]
  rfl

theorem writeData_data (s : String) :
    writeData ("data: " ++ s) = "data: " ++ dataReplacer s ++ "\n\n" := by
  rw [writeData, if_pos (hasPrefix_data s), dataReplacer_append]
  rfl

theorem writeData_event (type : String) :
    writeData ("event: " ++ type ++ "\n") = "event: " ++ dataReplacer type ++ "\n" := by
  rw [writeData, String.append_assoc, hasPrefix_event, dataReplacer_append, dataReplacer_append]
  simp only [Bool.false_eq_true, if_false, String.append_empty, String.append_assoc]
  rfl

/-- The lines in which an event is written. -/
def Event.lines : Event → List String
  | .pingData => [": PING", ""]
  | .stringData str => ["data: " ++ dataReplacer str, ""]
  | .claudeData type data | .responseChunkData type data =>
      ["event: " ++ dataReplacer type, "data: " ++ dataReplacer data, ""]
  | .claudeChunkData type data =>
      ["event: " ++ dataReplacer type, "data: " ++ dataReplacer data, "", ""]

theorem toList_text (e : Event) :
    e.text.toList = (e.lines.map String.toList).flatMap fun l => l ++ ['\n'] := by
  cases e with
  | pingData => rfl
  | stringData str =>
      rw [Event.text, writeData_data]
      simp [Event.lines]
  | claudeData type data =>
      rw [Event.text, writeData_data, writeData_event]
      simp [Event.lines]
  | claudeChunkData type data =>
      have hdata : "data: " ++ data ++ "\n" = "data: " ++ (data ++ "\n") := String.append_assoc
      rw [Event.text, hdata, writeData_data, writeData_event, dataReplacer_append]
      simp [Event.lines, dataReplacer]
  | responseChunkData type data =>
      rw [Event.text, writeData_data, writeData_event]
      simp [Event.lines]

/-- An event whose name and payload have no newline is read line by line. -/
theorem newline_not_mem_lines (hnamed : e.Named bufferSize)
    (hdata : ∀ data ∈ e.data, '\n' ∉ data.toList) : ∀ line ∈ e.lines, '\n' ∉ line.toList := by
  have hprefixed : ∀ (p s : String), '\n' ∉ p.toList → '\n' ∉ s.toList →
      '\n' ∉ (p ++ dataReplacer s).toList := by
    intro p s hp hs hmem
    rw [String.toList_append, List.mem_append] at hmem
    exact hmem.elim hp fun hmem => hs (newline_mem_dataReplacer hmem)
  have hempty : '\n' ∉ "".toList := List.not_mem_nil
  cases e with
  | pingData => decide
  | stringData str =>
      have hline := hprefixed "data: " str (by decide) (hdata str rfl)
      simp only [Event.lines, List.forall_mem_cons]
      exact ⟨hline, hempty, fun _ h => absurd h List.not_mem_nil⟩
  | claudeData type data | claudeChunkData type data | responseChunkData type data =>
      have htype := hprefixed "event: " type (by decide) hnamed.1
      have hline := hprefixed "data: " data (by decide) (hdata data rfl)
      simp only [Event.lines, List.forall_mem_cons]
      first
        | exact ⟨htype, hline, hempty, fun _ h => absurd h List.not_mem_nil⟩
        | exact ⟨htype, hline, hempty, hempty, fun _ h => absurd h List.not_mem_nil⟩

theorem scan_wire_cons (h : ∀ line ∈ e.lines, '\n' ∉ line.toList) :
    (Lines.scan '\n' (wire (e :: events)).toList).map String.ofList =
      e.lines ++ (Lines.scan '\n' (wire events).toList).map String.ofList := by
  have hlines : ∀ l ∈ e.lines.map String.toList, '\n' ∉ l := by
    intro l hl
    obtain ⟨line, hline, rfl⟩ := List.mem_map.1 hl
    exact h line hline
  rw [wire, List.map_cons, Text.concat_cons, String.toList_append, toList_text,
    Lines.scan_flatMap hlines, List.map_append, List.map_map]
  congr 1
  exact (List.map_congr_left fun line _ => String.ofList_toList).trans (List.map_id _)

/-! ## Reading lines that were written -/

/-- What the scanner accepts of the lines of a body. -/
def acceptedOf (bufferSize : Nat) (lines : List String) : List String :=
  accepted ((lines.takeWhile fun line => Text.byteLength line < bufferSize).map
    fun line => Text.trimSuffix line "\r")

theorem trimSuffix_of_not_mem {line : String} (h : '\r' ∉ line.toList) :
    Text.trimSuffix line "\r" = line := by
  rw [Text.trimSuffix, if_neg]
  intro hsuffix
  rw [Text.hasSuffix, List.isSuffixOf_iff_suffix] at hsuffix
  exact h (hsuffix.subset (.head _))

variable {line : String} {lines : List String}

theorem acceptedOf_cons (hcr : '\r' ∉ line.toList)
    (hfits : Text.byteLength line < bufferSize) :
    acceptedOf bufferSize (line :: lines) =
      match classify line with
      | .skip => acceptedOf bufferSize lines
      | .payload data => data :: acceptedOf bufferSize lines
      | .done => [] := by
  rw [acceptedOf, List.takeWhile_cons, if_pos (decide_eq_true hfits), List.map_cons,
    trimSuffix_of_not_mem hcr, accepted]
  rfl

theorem acceptedOf_skip (hcr : '\r' ∉ line.toList) (hfits : Text.byteLength line < bufferSize)
    (hdata : Text.hasPrefix line "data:" = false) (hdone : Text.hasPrefix line "[DONE]" = false) :
    acceptedOf bufferSize (line :: lines) = acceptedOf bufferSize lines := by
  have hnone : Scanner.dataOf line = none := by
    rw [Scanner.dataOf, hdata]
    rfl
  rw [acceptedOf_cons hcr hfits, Scanner.classify_of_other hnone hdone]

theorem acceptedOf_long (hlong : ¬ Text.byteLength line < bufferSize) :
    acceptedOf bufferSize (line :: lines) = [] := by
  rw [acceptedOf, List.takeWhile_cons, if_neg (by rwa [decide_eq_true_eq])]
  rfl

theorem byteLength_append (s t : String) :
    Text.byteLength (s ++ t) = Text.byteLength s + Text.byteLength t := by
  have h : ∀ (l : List Char) (n : Nat), l.foldl (fun n c => n + c.utf8Size) n =
      n + l.foldl (fun n c => n + c.utf8Size) 0 := by
    intro l
    induction l with
    | nil => exact fun n => rfl
    | cons c l ih =>
        intro n
        rw [List.foldl_cons, List.foldl_cons, ih, ih (0 + _)]
        omega
  rw [Text.byteLength, String.toList_append, List.foldl_append, h]
  rfl

theorem dataOf_data (s : String) :
    Scanner.dataOf ("data: " ++ s) = some (Text.trimSpace s) := by
  have hprefix : Text.hasPrefix ("data: " ++ s) "data:" = true := by
    rw [Text.hasPrefix_iff, String.toList_append]
    exact (List.prefix_append "data:".toList " ".toList).trans (List.prefix_append _ _)
  have hdrop : Text.dropPrefix ("data: " ++ s) "data:" = String.ofList (' ' :: s.toList) := by
    rw [Text.dropPrefix, String.toList_append]
    rfl
  rw [Scanner.dataOf, if_pos hprefix, hdrop, Text.trimSpace, String.toList_ofList,
    List.dropWhile_cons_of_pos (by decide), Text.trimSpace]

/-- A clean payload is accepted if its line fits, and else the scan ends. -/
theorem acceptedOf_data (h : Clean data) :
    acceptedOf bufferSize (("data: " ++ data) :: lines) =
      if Text.byteLength data + 6 < bufferSize then data :: acceptedOf bufferSize lines else [] := by
  have hlength : Text.byteLength ("data: " ++ data) = Text.byteLength data + 6 := by
    rw [byteLength_append, Nat.add_comm]
    rfl
  have hcr : '\r' ∉ ("data: " ++ data).toList := by
    rw [String.toList_append, List.mem_append, not_or]
    exact ⟨by decide, h.carriageReturn⟩
  by_cases hfits : Text.byteLength data + 6 < bufferSize
  · have hdata := dataOf_data data
    rw [h.trimmed] at hdata
    have hdone : ¬ Text.hasPrefix data "[DONE]" = true := by
      rw [h.notDone]
      exact Bool.false_ne_true
    rw [acceptedOf_cons hcr (by rwa [hlength]), Scanner.classify_of_data hdata, if_neg h.nonempty,
      if_neg hdone, if_pos hfits]
  · rw [acceptedOf_long (by rwa [hlength]), if_neg hfits]

theorem acceptedOf_done : acceptedOf bufferSize ("data: [DONE]" :: lines) = [] := by
  by_cases hfits : Text.byteLength "data: [DONE]" < bufferSize
  · rw [acceptedOf_cons (by decide) hfits]
    rfl
  · exact acceptedOf_long hfits

theorem acceptedOf_empty (hsize : 0 < bufferSize) :
    acceptedOf bufferSize ("" :: lines) = acceptedOf bufferSize lines :=
  acceptedOf_skip List.not_mem_nil hsize rfl rfl

theorem acceptedOf_event {type : String}
    (hfits : Text.byteLength ("event: " ++ dataReplacer type) < bufferSize) :
    acceptedOf bufferSize (("event: " ++ dataReplacer type) :: lines) =
      acceptedOf bufferSize lines := by
  refine acceptedOf_skip ?_ hfits ?_ ?_
  · rw [String.toList_append, List.mem_append, not_or]
    exact ⟨by decide, carriageReturn_not_mem_dataReplacer type⟩
  · rw [Text.hasPrefix, String.toList_append]
    rfl
  · rw [Text.hasPrefix, String.toList_append]
    rfl

/-- Of the lines of an event with a payload, the line of the payload counts. -/
theorem acceptedOf_lines (hsize : 6 < bufferSize) (hnamed : e.Named bufferSize)
    (hcr : ∀ data ∈ e.data, '\r' ∉ data.toList) :
    acceptedOf bufferSize (e.lines ++ lines) =
      match e.data with
      | none => acceptedOf bufferSize lines
      | some data => acceptedOf bufferSize (("data: " ++ data) :: lines) := by
  have hpos : 0 < bufferSize := by omega
  -- the blank lines after a payload may as well be left out
  have hblank : ∀ (data : String) (lines : List String),
      acceptedOf bufferSize (("data: " ++ dataReplacer data) :: "" :: lines) =
        acceptedOf bufferSize (("data: " ++ dataReplacer data) :: lines) := by
    intro data lines
    by_cases hfits : Text.byteLength ("data: " ++ dataReplacer data) < bufferSize
    · have hcr : '\r' ∉ ("data: " ++ dataReplacer data).toList := by
        rw [String.toList_append, List.mem_append, not_or]
        exact ⟨by decide, carriageReturn_not_mem_dataReplacer data⟩
      rw [acceptedOf_cons hcr hfits, acceptedOf_cons hcr hfits, acceptedOf_empty hpos]
    · rw [acceptedOf_long hfits, acceptedOf_long hfits]
  cases e with
  | pingData =>
      show acceptedOf bufferSize (": PING" :: "" :: lines) = _
      rw [acceptedOf_skip (by decide) hsize rfl rfl, acceptedOf_empty hpos]
      rfl
  | stringData str =>
      show acceptedOf bufferSize (("data: " ++ dataReplacer str) :: "" :: lines) = _
      rw [hblank, dataReplacer_eq_self (hcr str rfl)]
      rfl
  | claudeData type data | responseChunkData type data =>
      show acceptedOf bufferSize (("event: " ++ dataReplacer type) ::
        ("data: " ++ dataReplacer data) :: "" :: lines) = _
      rw [acceptedOf_event hnamed.2, hblank, dataReplacer_eq_self (hcr data rfl)]
      rfl
  | claudeChunkData type data =>
      show acceptedOf bufferSize (("event: " ++ dataReplacer type) ::
        ("data: " ++ dataReplacer data) :: "" :: "" :: lines) = _
      rw [acceptedOf_event hnamed.2, hblank, hblank, dataReplacer_eq_self (hcr data rfl)]
      rfl

theorem said_cons_of_none (h : e.data = none) : said (e :: events) = said events := by
  rw [said, List.filterMap_cons_none h]
  rfl

theorem said_cons_of_some (h : e.data = some data) :
    said (e :: events) = if data = "[DONE]" then [] else data :: said events := by
  rw [said, List.filterMap_cons_some h, List.takeWhile_cons]
  by_cases hdone : data = "[DONE]"
  · rw [if_pos hdone, if_neg (by simpa using hdone)]
  · rw [if_neg hdone, if_pos (by simpa using hdone)]
    rfl

/-- Clean payloads are accepted up to the first one that does not fit. -/
theorem accepted_wire (hsize : 6 < bufferSize) (hnamed : ∀ e ∈ events, e.Named bufferSize)
    (hclean : ∀ data ∈ said events, Clean data) :
    accepted (scanLines bufferSize (wire events)) =
      (said events).takeWhile fun data => Text.byteLength data + 6 < bufferSize := by
  show acceptedOf bufferSize ((Lines.scan '\n' (wire events).toList).map String.ofList) = _
  induction events with
  | nil => rfl
  | cons e events ih =>
      rw [List.forall_mem_cons] at hnamed
      cases hdata : e.data with
      | none =>
          rw [said_cons_of_none hdata] at hclean ⊢
          have hlines := newline_not_mem_lines hnamed.1
            (fun data h => absurd (hdata.symm.trans h) (by simp))
          rw [scan_wire_cons hlines, acceptedOf_lines hsize hnamed.1
            (fun data h => absurd (hdata.symm.trans h) (by simp)), hdata]
          exact ih hnamed.2 hclean
      | some data =>
          have hsaid : said (e :: events) =
              if data = "[DONE]" then [] else data :: said events := said_cons_of_some hdata
          have honly : ∀ P : String → Prop, P data → ∀ d ∈ e.data, P d := by
            intro P hP d hd
            rw [hdata, Option.mem_some_iff] at hd
            exact hd ▸ hP
          by_cases hdone : data = "[DONE]"
          · rw [hsaid, if_pos hdone]
            subst hdone
            have hlines := newline_not_mem_lines hnamed.1 (honly (fun d => '\n' ∉ d.toList) (by decide))
            rw [scan_wire_cons hlines, acceptedOf_lines hsize hnamed.1
              (honly (fun d => '\r' ∉ d.toList) (by decide)), hdata]
            exact acceptedOf_done
          · rw [hsaid, if_neg hdone] at hclean ⊢
            rw [List.forall_mem_cons] at hclean
            have hlines := newline_not_mem_lines hnamed.1
              (honly (fun d => '\n' ∉ d.toList) hclean.1.newline)
            rw [scan_wire_cons hlines, acceptedOf_lines hsize hnamed.1
              (honly (fun d => '\r' ∉ d.toList) hclean.1.carriageReturn), hdata,
              List.takeWhile_cons]
            show acceptedOf bufferSize (("data: " ++ data) :: _) = _
            rw [acceptedOf_data hclean.1, ih hnamed.2 hclean.2]
            by_cases hfits : Text.byteLength data + 6 < bufferSize
            · rw [if_pos hfits, if_pos (decide_eq_true hfits)]
            · rw [if_neg hfits, if_neg (by rwa [decide_eq_true_eq])]

/-! ## What is accepted is clean -/

theorem carriageReturn_not_mem_wire (events : List Event) : '\r' ∉ (wire events).toList := by
  have hwrite : ∀ s : String, '\r' ∉ (writeData s).toList := by
    intro s
    rw [writeData, String.toList_append, List.mem_append, not_or]
    refine ⟨carriageReturn_not_mem_dataReplacer s, ?_⟩
    split
    · decide
    · decide
  have hboth : ∀ s t : String, '\r' ∉ (writeData s ++ writeData t).toList := by
    intro s t
    rw [String.toList_append, List.mem_append, not_or]
    exact ⟨hwrite s, hwrite t⟩
  induction events with
  | nil => exact List.not_mem_nil
  | cons e events ih =>
      rw [wire, List.map_cons, Text.concat_cons, String.toList_append, List.mem_append, not_or]
      refine ⟨?_, ih⟩
      cases e with
      | pingData => decide
      | stringData str => exact hwrite _
      | claudeData type data | claudeChunkData type data | responseChunkData type data =>
          exact hboth _ _

theorem classify_payload (h : classify line = .payload data) :
    Text.trimSpace data = data ∧ ∀ c ∈ data.toList, c ∈ line.toList := by
  rw [classify] at h
  split at h
  · cases h
  · split at h
    · cases h
    · simp only at h
      split at h
      · cases h
      · split at h
        · rw [Scanner.Verdict.payload.injEq] at h
          subst h
          refine ⟨Text.trimSpace_trimSpace _, fun c hc => ?_⟩
          have hmem := Text.mem_of_mem_trimSpace hc
          rw [String.toList_ofList] at hmem
          exact List.mem_of_mem_drop hmem
        · cases h

theorem mem_of_mem_trimSuffix {c : Char} {p : String} (h : c ∈ (Text.trimSuffix line p).toList) :
    c ∈ line.toList := by
  rw [Text.trimSuffix] at h
  split at h
  · rw [String.toList_ofList] at h
    exact List.mem_of_mem_take h
  · exact h

/-- A payload has the characters of a line of the body. -/
theorem exists_line_of_mem_accepted {body : String}
    (h : data ∈ accepted (scanLines bufferSize body)) :
    ∃ l ∈ Lines.scan '\n' body.toList, ∀ c ∈ data.toList, c ∈ l := by
  obtain ⟨line, hline, hpayload⟩ := Scanner.exists_payload_of_mem_accepted h
  obtain ⟨raw, hraw, rfl⟩ := List.mem_map.1 hline
  obtain ⟨l, hl, rfl⟩ := List.mem_map.1 ((List.takeWhile_sublist _).mem hraw)
  refine ⟨l, hl, fun c hc => ?_⟩
  have hc := mem_of_mem_trimSuffix ((classify_payload hpayload).2 c hc)
  rwa [String.toList_ofList] at hc

theorem newline_not_mem_of_mem_accepted {body : String}
    (h : data ∈ accepted (scanLines bufferSize body)) : '\n' ∉ data.toList := by
  obtain ⟨l, hl, hchars⟩ := exists_line_of_mem_accepted h
  exact fun hc => Lines.sep_not_mem_of_mem_scan hl (hchars _ hc)

theorem clean_of_mem_accepted (h : data ∈ accepted (scanLines bufferSize (wire events))) :
    Clean data := by
  obtain ⟨line, -, hpayload⟩ := Scanner.exists_payload_of_mem_accepted h
  obtain ⟨l, hl, hchars⟩ := exists_line_of_mem_accepted h
  obtain ⟨hnonempty, hdone⟩ := Scanner.payload_spec hpayload
  exact ⟨newline_not_mem_of_mem_accepted h,
    fun hc => carriageReturn_not_mem_wire events (Lines.mem_of_mem_scan hl (hchars _ hc)),
    (classify_payload hpayload).1, hnonempty, hdone⟩

end

theorem getScannerBufferSize_large (mb : Int) : 6 < getScannerBufferSize mb := by
  rw [getScannerBufferSize]
  split <;> omega

end DazeApi.Relay
