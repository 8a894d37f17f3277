import DazeApi.Lib.Text

/-!
# Images in the text of a chat message

The conversion to Gemini cuts inline images in markdown, `![alt](data:...)`, out of a text
(`relay/channel/gemini/relay-gemini.go`, with `service/image.go`).  The parts that it emits read
as the text exactly if the text has no such image, or is nothing but proper images with text
between them (`reads_iff`).
-/

namespace DazeApi.Convert.MarkdownImages

open Text (cut)

/-! ## Data URLs -/

/-- The package `image`: the format of base64 data.  The name of a format has neither commas
nor brackets. -/
structure Env where
  imageFormat : List Char → Except String (List Char)
  plain : ∀ s format, imageFormat s = .ok format → ∀ c ∈ format, c.isAlphanum = true

def withoutHeader (base64String : List Char) : List Char :=
  match cut [','] base64String with
  | some (_, data) => data
  | none => base64String

/-- `DecodeBase64ImageData`: the format, as a type, and the data. -/
def decodeBase64ImageData (env : Env) (base64String : List Char) :
    Except String (List Char × List Char) :=
  if withoutHeader base64String = [] then .error "base64 string is empty"
  else
    match env.imageFormat (withoutHeader base64String) with
    | .ok format => .ok ("image/".toList ++ format, withoutHeader base64String)
    | .error e => .error e

/-- `DecodeBase64FileData`: the type and the data of a data URL. -/
def decodeBase64FileData (env : Env) (base64String : List Char) :
    Except String (List Char × List Char) :=
  match cut [','] base64String with
  | none => decodeBase64ImageData env base64String
  | some (mimeType, data) =>
      match cut [';'] mimeType with
      | none => decodeBase64ImageData env data
      | some (mimeType, _) =>
          match cut [':'] mimeType with
          | none => decodeBase64ImageData env data
          | some (_, mimeType) => .ok (mimeType, data)

/-! ## The loop -/

/-- `![`. -/
def imageStart : List Char := ['!', '[']

/-- `](data:`. -/
def dataStart : List Char := [']', '(', 'd', 'a', 't', 'a', ':']

/-- The first image of a text: what is before it, its alt text, its URL and what is behind.
The searches begin where the one before has ended. -/
def nextImage (text : List Char) : Option (List Char × List Char × List Char × List Char) := do
  let (textBefore, bracket) ← cut imageStart text
  let (alt, url) ← cut dataStart bracket
  let (dataUrl, rest) ← cut [')'] ("data:".toList ++ url)
  return (textBefore, alt, dataUrl, rest)

inductive GeminiPart where
  | text (s : List Char)
  | inlineData (mimeType data : List Char)

theorem length_rest {text textBefore alt dataUrl rest : List Char}
    (h : nextImage text = some (textBefore, alt, dataUrl, rest)) : rest.length < text.length := by
  simp only [nextImage, Option.bind_eq_bind, Option.bind_eq_some_iff] at h
  obtain ⟨⟨a, b⟩, hcut, ⟨a', b'⟩, hcut', ⟨a'', b''⟩, hcut'', heq⟩ := h
  cases heq
  have hlen := congrArg List.length (Text.of_cut hcut).1
  have hlen' := congrArg List.length (Text.of_cut hcut').1
  have hlen'' := congrArg List.length (Text.of_cut hcut'').1
  simp only [List.length_append, List.length_cons, List.length_nil, String.length_toList] at *
  rw [show "data:".length = 5 from rfl] at hlen''
  omega

/-- The parts of the images and of the texts before them; what is behind the last image is not
looked at. -/
def markdownParts (env : Env) (text : List Char) : Except String (List GeminiPart) :=
  match h : nextImage text with
  | none => .ok []
  | some (textBefore, _, dataUrl, rest) => do
      let (format, base64String) ← decodeBase64FileData env dataUrl
      have := length_rest h
      let parts ← markdownParts env rest
      return (if textBefore = [] then [] else [.text textBefore]) ++
        .inlineData format base64String :: parts
termination_by text.length

/-- What becomes of a text. -/
def textParts (env : Env) (text : List Char) : Except String (List GeminiPart) :=
  if text = [] then .ok []
  else if nextImage text = none then .ok [.text text]
  else markdownParts env text

/-! ## Reading the parts -/

/-- Brackets come in pairs; so many are open at first. -/
def Balanced : ℕ → List Char → Prop
  | 0, [] => True
  | _ + 1, [] => False
  | n, '[' :: cs => Balanced (n + 1) cs
  | 0, ']' :: _ => False
  | n + 1, ']' :: cs => Balanced n cs
  | n, _ :: cs => Balanced n cs

/-- The text in the brackets of one image. -/
structure Alt (alt : List Char) : Prop where
  balanced : Balanced 0 alt
  single : ¬ dataStart <:+: alt

/-- An image in markdown, with its data in the URL. -/
def markdown (alt mimeType data : List Char) : List Char :=
  imageStart ++ (alt ++ (dataStart ++ (mimeType ++ (";base64,".toList ++ (data ++ [')'])))))

/-- What parts can be read as, with any alt texts for the images. -/
inductive Reads : List GeminiPart → List Char → Prop
  | nil : Reads [] []
  | text {s l : List Char} {parts : List GeminiPart} (hparts : Reads parts l) :
      Reads (.text s :: parts) (s ++ l)
  | image {alt mimeType data l : List Char} {parts : List GeminiPart} (halt : Alt alt)
      (hparts : Reads parts l) :
      Reads (.inlineData mimeType data :: parts) (markdown alt mimeType data ++ l)

/-- Images with texts before them, and nothing behind the last one. -/
inductive Images : List Char → Prop
  | nil : Images []
  | image {textBefore alt mimeType data rest : List Char}
      (hbefore : ¬ imageStart <:+: textBefore) (halt : Alt alt)
      (hmime : ',' ∉ mimeType ∧ ';' ∉ mimeType ∧ ')' ∉ mimeType) (hdata : ')' ∉ data)
      (hrest : Images rest) : Images (textBefore ++ (markdown alt mimeType data ++ rest))

/-! ## Finding images -/

section

variable {env : Env} {text textBefore alt url rest mimeType data : List Char}

theorem not_mem_imageStart : '!' ∉ ['['] := by decide

theorem not_mem_dataStart : ']' ∉ ['(', 'd', 'a', 't', 'a', ':'] := by decide

theorem of_nextImage {dataUrl : List Char}
    (h : nextImage text = some (textBefore, alt, dataUrl, rest)) :
    ∃ url, dataUrl = "data:".toList ++ url ∧
      text = textBefore ++ (imageStart ++ (alt ++ (dataStart ++ (url ++ ([')'] ++ rest))))) ∧
      ¬ imageStart <:+: textBefore ∧ ¬ dataStart <:+: alt ∧ ')' ∉ url := by
  simp only [nextImage, Option.bind_eq_bind, Option.bind_eq_some_iff] at h
  obtain ⟨⟨a, b⟩, hcut, ⟨a', b'⟩, hcut', ⟨a'', b''⟩, hcut'', heq⟩ := h
  cases heq
  obtain ⟨rfl, hbefore⟩ := Text.of_cut hcut
  obtain ⟨rfl, halt⟩ := Text.of_cut hcut'
  obtain ⟨hurl, hclose⟩ := Text.of_cut hcut''
  rw [Text.singleton_infix_iff] at hclose
  rcases List.append_eq_append_iff.1 hurl with ⟨c, hdata, hrest⟩ | ⟨c, hdata, hrest⟩
  · subst hdata
    subst hrest
    rw [List.mem_append, not_or] at hclose
    exact ⟨c, rfl, rfl, hbefore, halt, hclose.2⟩
  · cases c with
    | nil =>
        rw [List.append_nil] at hdata
        rw [List.nil_append] at hrest
        subst hrest
        exact ⟨[], by rw [hdata, List.append_nil], rfl, hbefore, halt, List.not_mem_nil⟩
    | cons x c =>
        have hx : ')' = x := (List.cons.inj hrest).1
        have hmem : ')' ∈ "data:".toList := by
          rw [hdata, hx]
          exact List.mem_append_right _ List.mem_cons_self
        exact absurd hmem (by decide)

theorem nextImage_append (hbefore : ¬ imageStart <:+: textBefore) (halt : ¬ dataStart <:+: alt)
    (hurl : ')' ∉ url) :
    nextImage (textBefore ++ (imageStart ++ (alt ++ (dataStart ++ (url ++ ([')'] ++ rest)))))) =
      some (textBefore, alt, "data:".toList ++ url, rest) := by
  have hstart : cut imageStart
      (textBefore ++ (imageStart ++ (alt ++ (dataStart ++ (url ++ ([')'] ++ rest)))))) =
        some (textBefore, alt ++ (dataStart ++ (url ++ ([')'] ++ rest)))) :=
    Text.cut_append not_mem_imageStart hbefore
  have hdata : cut dataStart (alt ++ (dataStart ++ (url ++ ([')'] ++ rest)))) =
      some (alt, url ++ ([')'] ++ rest)) := Text.cut_append not_mem_dataStart halt
  have hclose : cut [')'] ("data:".toList ++ url ++ ([')'] ++ rest)) =
      some ("data:".toList ++ url, rest) := by
    refine Text.cut_append List.not_mem_nil ?_
    rw [Text.singleton_infix_iff, List.mem_append, not_or]
    exact ⟨by decide, hurl⟩
  rw [List.append_assoc] at hclose
  simp only [nextImage, hstart, hdata, hclose, Option.bind_eq_bind, Option.bind_some]
  rfl

/-! ## Decoding -/

theorem not_mem_of_alphanum {format : List Char} {x : Char}
    (h : ∀ c ∈ format, c.isAlphanum = true) (hx : x.isAlphanum = false) : x ∉ format := by
  intro hmem
  rw [h x hmem] at hx
  cases hx

/-- A type without separators, and data without a bracket. -/
def Separated (mimeType data : List Char) : Prop :=
  (',' ∉ mimeType ∧ ';' ∉ mimeType ∧ ')' ∉ mimeType) ∧ ')' ∉ data

theorem not_mem_withoutHeader {s : List Char} {x : Char} (hs : x ∉ s) : x ∉ withoutHeader s := by
  rw [withoutHeader]
  split
  next a b hcut =>
    rw [(Text.of_cut hcut).1, List.mem_append, not_or, List.mem_append, not_or] at hs
    exact hs.2.2
  next => exact hs

theorem separated_of_image {s : List Char} (hs : ')' ∉ s)
    (h : decodeBase64ImageData env s = .ok (mimeType, data)) : Separated mimeType data := by
  rw [decodeBase64ImageData] at h
  split at h
  next => cases h
  next =>
    split at h
    next format hformat =>
      cases h
      have hplain := env.plain _ _ hformat
      have hmem {x : Char} (himage : x ∉ "image/".toList) (hx : x.isAlphanum = false) :
          x ∉ "image/".toList ++ format := by
        rw [List.mem_append, not_or]
        exact ⟨himage, not_mem_of_alphanum hplain hx⟩
      exact ⟨⟨hmem (by decide) (by decide), hmem (by decide) (by decide),
        hmem (by decide) (by decide)⟩, not_mem_withoutHeader hs⟩
    next => cases h

theorem separated_of_decode {s : List Char} (hs : ')' ∉ s)
    (h : decodeBase64FileData env s = .ok (mimeType, data)) : Separated mimeType data := by
  rw [decodeBase64FileData] at h
  split at h
  next => exact separated_of_image hs h
  next header rest hcomma =>
    obtain ⟨rfl, hheader⟩ := Text.of_cut hcomma
    rw [Text.singleton_infix_iff] at hheader
    rw [List.mem_append, not_or, List.mem_append, not_or] at hs
    split at h
    next => exact separated_of_image hs.2.2 h
    next kind params hsemi =>
      obtain ⟨rfl, hkind⟩ := Text.of_cut hsemi
      rw [Text.singleton_infix_iff] at hkind
      split at h
      next => exact separated_of_image hs.2.2 h
      next scheme mime hcolon =>
        obtain ⟨rfl, -⟩ := Text.of_cut hcolon
        cases h
        have hpart {x : Char} (hx : x ∉ scheme ++ ([':'] ++ mimeType)) : x ∉ mimeType :=
          fun hmem => hx (List.mem_append_right _ (List.mem_append_right _ hmem))
        have hleft {x : Char} {l m : List Char} (hx : x ∉ l ++ m) : x ∉ l :=
          fun hmem => hx (List.mem_append_left _ hmem)
        exact ⟨⟨hpart (hleft hheader), hpart hkind, hpart (hleft hs.1)⟩, hs.2.2⟩

/-- The parts of a URL with base64 data. -/
theorem decode_url (hcomma : ',' ∉ mimeType) (hsemi : ';' ∉ mimeType) :
    decodeBase64FileData env
        ("data:".toList ++ (mimeType ++ (";base64,".toList ++ data))) =
      .ok (mimeType, data) := by
  have hcutcomma : cut [','] ("data:".toList ++ (mimeType ++ (";base64,".toList ++ data))) =
      some ("data:".toList ++ (mimeType ++ ";base64".toList), data) := by
    have hnot : ¬ [','] <:+: "data:".toList ++ (mimeType ++ ";base64".toList) := by
      rw [Text.singleton_infix_iff, List.mem_append, not_or, List.mem_append, not_or]
      exact ⟨by decide, hcomma, by decide⟩
    have hcut := Text.cut_append (b := data) List.not_mem_nil hnot
    rw [List.append_assoc, List.append_assoc] at hcut
    exact hcut
  have hcutsemi : cut [';'] ("data:".toList ++ (mimeType ++ ";base64".toList)) =
      some ("data:".toList ++ mimeType, "base64".toList) := by
    have hnot : ¬ [';'] <:+: "data:".toList ++ mimeType := by
      rw [Text.singleton_infix_iff, List.mem_append, not_or]
      exact ⟨by decide, hsemi⟩
    have hcut := Text.cut_append (b := "base64".toList) List.not_mem_nil hnot
    rw [List.append_assoc] at hcut
    exact hcut
  have hcutcolon : cut [':'] ("data:".toList ++ mimeType) = some ("data".toList, mimeType) := by
    have hnot : ¬ [':'] <:+: "data".toList := by
      rw [Text.singleton_infix_iff]
      decide
    exact Text.cut_append (b := mimeType) List.not_mem_nil hnot
  simp only [decodeBase64FileData, hcutcomma, hcutsemi, hcutcolon]

/-! ## The parts -/

theorem markdown_eq (alt mimeType data l : List Char) : markdown alt mimeType data ++ l =
    imageStart ++ (alt ++ (dataStart ++
      ((mimeType ++ (";base64,".toList ++ data)) ++ ([')'] ++ l)))) := by
  simp only [markdown, List.append_assoc]

theorem markdownParts_of_none (h : nextImage text = none) :
    markdownParts env text = .ok [] := by
  rw [markdownParts]
  split
  next => rfl
  next hsome => rw [h] at hsome; cases hsome

theorem of_markdownParts {parts : List GeminiPart} {dataUrl : List Char}
    (hnext : nextImage text = some (textBefore, alt, dataUrl, rest))
    (h : markdownParts env text = .ok parts) : ∃ mimeType data parts',
      decodeBase64FileData env dataUrl = .ok (mimeType, data) ∧
        markdownParts env rest = .ok parts' ∧
          parts = (if textBefore = [] then [] else [.text textBefore]) ++
            .inlineData mimeType data :: parts' := by
  rw [markdownParts] at h
  split at h
  next hnone => rw [hnext] at hnone; cases hnone
  next hsome =>
    rw [hnext] at hsome
    cases hsome
    cases hdecode : decodeBase64FileData env dataUrl with
    | error e => rw [hdecode] at h; cases h
    | ok r =>
        rw [hdecode] at h
        cases hrest : markdownParts env rest with
        | error e => rw [hrest] at h; cases h
        | ok parts' =>
            rw [hrest] at h
            cases h
            exact ⟨r.1, r.2, parts', rfl, rfl, rfl⟩

theorem reads_nil_iff : Reads [] text ↔ text = [] := by
  constructor
  · intro h
    cases h
    rfl
  · rintro rfl
    exact Reads.nil

theorem reads_text_iff {s : List Char} {parts : List GeminiPart} :
    Reads (.text s :: parts) text ↔ ∃ l, text = s ++ l ∧ Reads parts l := by
  constructor
  · intro h
    cases h with
    | text hparts => exact ⟨_, rfl, hparts⟩
  · rintro ⟨l, rfl, hparts⟩
    exact Reads.text hparts

theorem reads_before_iff {parts : List GeminiPart} :
    Reads ((if textBefore = [] then [] else [.text textBefore]) ++ parts) text ↔
      ∃ l, text = textBefore ++ l ∧ Reads parts l := by
  split
  next hempty =>
    subst hempty
    exact ⟨fun h => ⟨text, rfl, h⟩, by rintro ⟨l, rfl, h⟩; exact h⟩
  next => exact reads_text_iff

theorem reads_image_iff {parts : List GeminiPart} :
    Reads (.inlineData mimeType data :: parts) text ↔
      ∃ alt l, text = markdown alt mimeType data ++ l ∧ Alt alt ∧ Reads parts l := by
  constructor
  · intro h
    cases h with
    | image halt hparts => exact ⟨_, _, rfl, halt, hparts⟩
  · rintro ⟨alt, l, rfl, halt, hparts⟩
    exact Reads.image halt hparts

/-- Two images that begin where a text does are one, if their URLs end. -/
theorem markdown_inj {alt' l : List Char} (halt : ¬ dataStart <:+: alt)
    (halt' : ¬ dataStart <:+: alt') (hurl : ')' ∉ url)
    (hnew : ')' ∉ mimeType ++ (";base64,".toList ++ data))
    (h : imageStart ++ (alt ++ (dataStart ++ (url ++ ([')'] ++ rest)))) =
      markdown alt' mimeType data ++ l) :
    alt = alt' ∧ url = mimeType ++ (";base64,".toList ++ data) ∧ rest = l := by
  rw [markdown_eq] at h
  have hbracket := List.append_cancel_left h
  obtain ⟨hsame, hdata⟩ := Text.append_inj_of_not_infix not_mem_dataStart halt halt' hbracket
  have hurl' : ¬ [')'] <:+: url := by rwa [Text.singleton_infix_iff]
  have hnew' : ¬ [')'] <:+: mimeType ++ (";base64,".toList ++ data) := by
    rwa [Text.singleton_infix_iff]
  obtain ⟨hu, hr⟩ := Text.append_inj_of_not_infix List.not_mem_nil hurl' hnew' hdata
  exact ⟨hsame, hu, hr⟩

theorem not_bracket (hmime : ')' ∉ mimeType) (hdata : ')' ∉ data) :
    ')' ∉ mimeType ++ (";base64,".toList ++ data) := by
  rw [List.mem_append, not_or, List.mem_append, not_or]
  exact ⟨hmime, by decide, hdata⟩

/-- An image at the beginning of images is the next one. -/
theorem nextImage_images (hbefore : ¬ imageStart <:+: textBefore) (halt : Alt alt)
    (hmime : ')' ∉ mimeType) (hdata : ')' ∉ data) :
    nextImage (textBefore ++ (markdown alt mimeType data ++ rest)) =
      some (textBefore, alt, "data:".toList ++ (mimeType ++ (";base64,".toList ++ data)), rest) := by
  rw [markdown_eq]
  exact nextImage_append hbefore halt.single (not_bracket hmime hdata)

/-- A step of the loop against the next image. -/
theorem reads_markdownParts_iff {parts : List GeminiPart} (h : markdownParts env text = .ok parts) :
    Reads parts text ↔ Images text := by
  induction hn : text.length using Nat.strong_induction_on generalizing text parts with
  | _ n ih =>
      cases hnext : nextImage text with
      | none =>
          rw [markdownParts_of_none hnext] at h
          cases h
          rw [reads_nil_iff]
          constructor
          · rintro rfl
            exact Images.nil
          · intro himages
            cases himages with
            | nil => rfl
            | image hbefore halt hmime hdata hrest =>
                rw [nextImage_images hbefore halt hmime.2.2 hdata] at hnext
                cases hnext
      | some found =>
          obtain ⟨textBefore, alt, dataUrl, rest⟩ := found
          have hlt := length_rest hnext
          obtain ⟨mimeType, data, parts', hdecode, hparts, rfl⟩ := of_markdownParts hnext h
          have hrest := ih rest.length (by omega) hparts rfl
          obtain ⟨url, rfl, rfl, hbefore, halt, hurl⟩ := of_nextImage hnext
          have hnot : ')' ∉ "data:".toList ++ url := by
            rw [List.mem_append, not_or]
            exact ⟨by decide, hurl⟩
          obtain ⟨hmime, hdata⟩ := separated_of_decode hnot hdecode
          rw [reads_before_iff]
          constructor
          · rintro ⟨l, htext, hreads⟩
            obtain rfl := List.append_cancel_left htext
            obtain ⟨alt', l, himage, halt', hl⟩ := reads_image_iff.1 hreads
            obtain ⟨rfl, rfl, rfl⟩ :=
              markdown_inj halt halt'.single hurl (not_bracket hmime.2.2 hdata) himage
            rw [himage]
            exact Images.image hbefore halt' hmime hdata (hrest.1 hl)
          · intro himages
            generalize htext : textBefore ++ _ = text at himages hnext
            cases himages with
            | nil => simp [imageStart] at htext
            | @image textBefore' alt' mimeType' data' rest' hbefore' halt' hmime' hdata' hrest' =>
                rw [nextImage_images hbefore' halt' hmime'.2.2 hdata'] at hnext
                cases hnext
                have hsame := (decode_url hmime'.1 hmime'.2.1).symm.trans hdecode
                cases hsame
                exact ⟨_, htext.symm ▸ rfl, Reads.image halt' (hrest.2 hrest')⟩

end

/-- The parts of a text read as it exactly if no image is found in it, or it is proper images
with text between them and nothing behind. -/
theorem reads_iff (env : Env) (text : List Char) (parts : List GeminiPart)
    (h : textParts env text = .ok parts) :
    Reads parts text ↔ nextImage text = none ∨ Images text := by
  rw [textParts] at h
  split at h
  next hempty =>
    cases h
    subst hempty
    exact iff_of_true Reads.nil (Or.inl rfl)
  next hne =>
    split at h
    next hnone =>
      cases h
      refine iff_of_true ?_ (Or.inl hnone)
      exact reads_text_iff.2 ⟨[], (List.append_nil text).symm, Reads.nil⟩
    next hsome =>
      rw [reads_markdownParts_iff h]
      exact (or_iff_right hsome).symm

/-- No format is known. -/
def noFormats : Env := ⟨fun _ => .error "image: unknown format", by rintro s format ⟨⟩⟩

/-- An image with a text behind it, `![](data:image/png;base64,AA)!`. -/
def imageThenText : List Char := markdown [] "image/png".toList "AA".toList ++ ['!']

theorem alt_nil : Alt [] := ⟨trivial, by decide⟩

theorem nextImage_imageThenText : nextImage imageThenText = some ([], [],
    "data:".toList ++ ("image/png".toList ++ (";base64,".toList ++ "AA".toList)), ['!']) := by
  have hbefore : ¬ imageStart <:+: ([] : List Char) := by decide
  exact nextImage_images hbefore alt_nil (show ')' ∉ "image/png".toList by decide)
    (show ')' ∉ "AA".toList by decide)

theorem textParts_imageThenText : textParts noFormats imageThenText =
    .ok [.inlineData "image/png".toList "AA".toList] := by
  have hnext := nextImage_imageThenText
  have hdecode : decodeBase64FileData noFormats _ = .ok (_, "AA".toList) :=
    decode_url (show ',' ∉ "image/png".toList by decide) (by decide)
  have hrest : markdownParts noFormats ['!'] = .ok [] := markdownParts_of_none (by rfl)
  have hne : imageThenText ≠ [] := List.cons_ne_nil _ _
  rw [textParts, if_neg hne, hnext, if_neg (Option.some_ne_none _), markdownParts]
  split
  next hnone => rw [hnext] at hnone; cases hnone
  next hsome =>
    rw [hnext] at hsome
    cases hsome
    rw [hdecode]
    change (markdownParts noFormats ['!']).bind _ = _
    rw [hrest]
    rfl

theorem reads_iff_imageThenText :
    Reads [.inlineData "image/png".toList "AA".toList] imageThenText ↔
      nextImage imageThenText = none ∨ Images imageThenText :=
  reads_iff noFormats imageThenText _ textParts_imageThenText

/-- The text behind the last image is not emitted. -/
theorem not_reads_imageThenText : ¬ ∀ (env : Env) (text : List Char) (parts : List GeminiPart),
    textParts env text = .ok parts → Reads parts text := by
  intro h
  obtain ⟨alt, l, htext, -, hl⟩ :=
    reads_image_iff.1 (h noFormats imageThenText _ textParts_imageThenText)
  rw [reads_nil_iff.1 hl] at htext
  have hlast := congrArg List.getLast? htext
  simp [markdown, imageThenText] at hlast

end DazeApi.Convert.MarkdownImages
