import GroupChat.Common.Uuid
import GroupChat.Text.JsString
import GroupChat.Text.LowerCase
import GroupChat.Text.Marks

/-!
# Where an upload is stored

An uploaded file comes with a name and a MIME type that the uploader chose.
`objectPath` makes a path of them: the group, a fresh identifier with what is left
of the name, and an extension.  What is left of a name are letters, digits,
underscores and hyphens.  The extension is looked up for the type, and a type that is
not in the table is stored as `bin`, so that it is served as no type at all.

The table is an object, and an object has properties that nobody put into it.
`isInert_iff` says that these are the only types for which a path is not inert.
-/

namespace GroupChat
namespace Storage

open Common Text

/-! ## The path -/

/-- A text of the shape of an identifier. -/
abbrev UuidText := {value : String // isUuid value = true}

def UuidText.units (id : UuidText) : JsString := JsString.ofString id.val

def slash : CodeUnit := 0x2F

def dot : CodeUnit := 0x2E

def hyphen : CodeUnit := 0x2D

def underscore : CodeUnit := 0x5F

/-- `\w` or a hyphen. -/
def isSafe (u : CodeUnit) : Bool :=
  (0x30 ≤ u && u ≤ 0x39) || (0x41 ≤ u && u ≤ 0x5A) || (0x61 ≤ u && u ≤ 0x7A) ||
    u = underscore || u = hyphen

/-- `.replace(/\.[^.]*$/, '')`: all from the last dot on is dropped. -/
def dropExtension (us : JsString) : JsString :=
  match us.reverse.dropWhile (· ≠ dot) with
  | [] => us
  | _ :: front => front.reverse

/-- `.replace(/[^\w-]+/g, '_')`; `inRun` says that the unit before was replaced. -/
def replaceUnsafe (inRun : Bool) : JsString → JsString
  | [] => []
  | u :: us =>
    if isSafe u then u :: replaceUnsafe false us
    else if inRun then replaceUnsafe true us
    else underscore :: replaceUnsafe true us

/-- `.slice(-80)` -/
def lastEighty (us : JsString) : JsString := us.drop (us.length - 80)

/-- What is left of the name of a file. -/
def stemOf (originalname : JsString) : JsString :=
  let stem := lastEighty (replaceUnsafe false (dropExtension originalname))
  if stem = [] then JsString.ofString "file" else stem

/-- The stored file extension for each allowed MIME type. -/
def EXTENSION_FOR_MIME : List (String × String) :=
  [("image/png", "png"), ("image/jpeg", "jpg"), ("image/jpg", "jpg"), ("image/gif", "gif"),
    ("image/webp", "webp"), ("application/pdf", "pdf")]

def FALLBACK_EXTENSION : String := "bin"

/-- What every object inherits, with the text that a template makes of it. -/
def objectPrototype : List (String × String) :=
  [("constructor", "function Object() \x7b [native code] \x7d"),
    ("__proto__", "[object Object]"),
    ("__defineGetter__", "function __defineGetter__() \x7b [native code] \x7d"),
    ("__defineSetter__", "function __defineSetter__() \x7b [native code] \x7d"),
    ("__lookupGetter__", "function __lookupGetter__() \x7b [native code] \x7d"),
    ("__lookupSetter__", "function __lookupSetter__() \x7b [native code] \x7d"),
    ("hasOwnProperty", "function hasOwnProperty() \x7b [native code] \x7d"),
    ("isPrototypeOf", "function isPrototypeOf() \x7b [native code] \x7d"),
    ("propertyIsEnumerable", "function propertyIsEnumerable() \x7b [native code] \x7d"),
    ("toLocaleString", "function toLocaleString() \x7b [native code] \x7d"),
    ("toString", "function toString() \x7b [native code] \x7d"),
    ("valueOf", "function valueOf() \x7b [native code] \x7d")]

/-- The string is one of the names. -/
def Names (entries : List (String × String)) (name : JsString) : Prop :=
  ∃ entry ∈ entries, JsString.ofString entry.1 = name

/-- Reading a property of the table: its own ones, and then what it inherits. -/
def property (name : JsString) : Option String :=
  ((EXTENSION_FOR_MIME ++ objectPrototype).find? fun entry =>
    JsString.ofString entry.1 = name).map Prod.snd

variable (toLowerCase : JsString → JsString)

def extensionOf (mimetype : JsString) : String :=
  (property (toLowerCase mimetype)).getD FALLBACK_EXTENSION

def objectPath (groupId uuid : UuidText) (originalname mimetype : JsString) : JsString :=
  groupId.units ++ slash :: (uuid.units ++ hyphen :: (stemOf originalname ++
    dot :: JsString.ofString (extensionOf toLowerCase mimetype)))

/-! ## The local directory -/

/-- One segment of a path, below a directory. -/
def enter (dir : List JsString) (segment : JsString) : List JsString :=
  if segment = [] ∨ segment = JsString.ofString "." then dir
  else if segment = JsString.ofString ".." then dir.dropLast
  else dir ++ [segment]

/-- `join`, on the segments of an absolute directory. -/
def join (dir : List JsString) (path : JsString) : List JsString :=
  (path.splitOn slash).foldl enter dir

/-- What an upload leaves on the disk, and the URL it is served under. -/
structure StoredFile where
  directory : List JsString
  absPath : List JsString
  url : JsString

def uploadToLocal (uploadsDir : List JsString) (objectPath : JsString) : StoredFile where
  directory := join (join uploadsDir objectPath) (JsString.ofString "..")
  absPath := join uploadsDir objectPath
  url := JsString.ofString "/api/uploads/" ++ objectPath

/-! ## What is left of a name -/

theorem isSafe_underscore : isSafe underscore = true := by decide

theorem isSafe_of_mem_replaceUnsafe {inRun : Bool} {us : JsString} {u : CodeUnit}
    (h : u ∈ replaceUnsafe inRun us) : isSafe u = true := by
  induction us generalizing inRun with
  | nil => exact absurd h List.not_mem_nil
  | cons v us ih =>
    unfold replaceUnsafe at h
    split_ifs at h with hsafe hrun
    · rcases List.mem_cons.mp h with rfl | h
      · exact hsafe
      · exact ih h
    · exact ih h
    · rcases List.mem_cons.mp h with rfl | h
      · exact isSafe_underscore
      · exact ih h

/-- **What is left of a name** is safe, not empty, and at most eighty units long. -/
theorem stemOf_spec (originalname : JsString) :
    (1 ≤ (stemOf originalname).length ∧ (stemOf originalname).length ≤ 80) ∧
      ∀ u ∈ stemOf originalname, isSafe u = true := by
  unfold stemOf
  dsimp only
  split_ifs with hempty
  · have hfile : (JsString.ofString "file").all isSafe = true := by decide
    exact ⟨⟨by decide, by decide⟩, List.all_eq_true.mp hfile⟩
  · refine ⟨⟨List.length_pos_iff.mpr hempty, ?_⟩, fun u hu => ?_⟩
    · unfold lastEighty
      rw [List.length_drop]
      omega
    · exact isSafe_of_mem_replaceUnsafe (List.mem_of_mem_drop hu)

/-! ## Safe units -/

/-- A hexadecimal digit is a safe unit. -/
theorem isSafe_of_digit {c : Char} (h : (digitOf 16 c).isSome) :
    ∀ u ∈ unitsOfChar c, isSafe u = true := by
  obtain ⟨d, hd⟩ := Option.isSome_iff_exists.mp h
  have hvalue : digitValue c = some d := (Option.filter_eq_some_iff.mp hd).1
  have hrange : (0x30 ≤ c.toNat ∧ c.toNat ≤ 0x39) ∨ (0x61 ≤ c.toNat ∧ c.toNat ≤ 0x66) ∨
      (0x41 ≤ c.toNat ∧ c.toNat ≤ 0x46) := by
    unfold digitValue at hvalue
    split_ifs at hvalue with h0 ha hA
    · exact Or.inl h0
    · exact Or.inr (Or.inl ha)
    · exact Or.inr (Or.inr hA)
  intro u hu
  have hu' : u = UInt16.ofNat c.toNat := by
    unfold unitsOfChar at hu
    rw [if_pos (by omega)] at hu
    exact List.mem_singleton.mp hu
  subst hu'
  generalize c.toNat = n at hrange
  rcases hrange with ⟨hlo, hhi⟩ | ⟨hlo, hhi⟩ | ⟨hlo, hhi⟩
  · interval_cases n <;> decide
  · interval_cases n <;> decide
  · interval_cases n <;> decide

theorem mem_of_fits {slots : List Slot} {cs : List Char} (h : fits slots cs = true) :
    ∀ c ∈ cs, c = '-' ∨ (digitOf 16 c).isSome := by
  obtain ⟨hdashed, -, hdigits⟩ := digits_of_fits h
  intro c hc
  rw [← hdashed] at hc
  exact (mem_dashed hc).imp_right (hdigits c)

/-- **An identifier is written in safe units.** -/
theorem isSafe_of_mem_units (id : UuidText) : ∀ u ∈ id.units, isSafe u = true := by
  have hdash : (unitsOfChar '-').all isSafe = true := by decide
  intro u hu
  obtain ⟨c, hc, hu⟩ := List.mem_flatMap.mp hu
  rcases mem_of_fits id.property c hc with rfl | hdigit
  · exact List.all_eq_true.mp hdash u hu
  · exact isSafe_of_digit hdigit u hu

theorem not_mem_of_isSafe {us : JsString} {mark : CodeUnit} (hus : ∀ u ∈ us, isSafe u = true)
    (hmark : isSafe mark = false) : mark ∉ us := fun h =>
  Bool.false_ne_true (hmark.symm.trans (hus mark h))

/-! ## Extensions -/

variable {toLowerCase : JsString → JsString} {groupId uuid : UuidText}
  {originalname mimetype : JsString}

/-- The extensions a stored file may have. -/
def extensions : List String := ["png", "jpg", "gif", "webp", "pdf", FALLBACK_EXTENSION]

theorem property_of_names {name : JsString} (h : Names EXTENSION_FOR_MIME name) :
    ∃ entry ∈ EXTENSION_FOR_MIME, property name = some entry.2 := by
  obtain ⟨entry, hentry, hname⟩ := h
  unfold property
  rw [List.find?_append]
  cases hfind : EXTENSION_FOR_MIME.find? fun entry => JsString.ofString entry.1 = name with
  | none => exact absurd hname (by simpa using List.find?_eq_none.mp hfind entry hentry)
  | some found => exact ⟨found, List.mem_of_find?_eq_some hfind, rfl⟩

theorem property_of_not_names {name : JsString} (h : ¬Names EXTENSION_FOR_MIME name) :
    property name =
      (objectPrototype.find? fun entry => JsString.ofString entry.1 = name).map Prod.snd := by
  unfold property
  rw [List.find?_append, List.find?_eq_none.mpr fun entry hentry hname => h ⟨entry, hentry, by
    simpa using hname⟩, Option.none_or]

/-- No type of the table is a name of what objects inherit. -/
theorem not_names_both {name : JsString} (h : Names EXTENSION_FOR_MIME name) :
    ¬Names objectPrototype name := by
  rintro ⟨entry', hentry', rfl⟩
  obtain ⟨entry, hentry, hname⟩ := h
  have hne : ∀ entry ∈ EXTENSION_FOR_MIME, ∀ entry' ∈ objectPrototype,
      JsString.ofString entry.1 ≠ JsString.ofString entry'.1 := by decide
  exact hne entry hentry entry' hentry' hname

/-- **The extension of a type that no object inherits**: one of six, and `bin` exactly for
the types that are not in the table. -/
theorem extensionOf_spec (h : ¬Names objectPrototype (toLowerCase mimetype)) :
    extensionOf toLowerCase mimetype ∈ extensions ∧
      (extensionOf toLowerCase mimetype ≠ FALLBACK_EXTENSION ↔
        Names EXTENSION_FOR_MIME (toLowerCase mimetype)) := by
  unfold extensionOf
  by_cases hown : Names EXTENSION_FOR_MIME (toLowerCase mimetype)
  · have hentries : ∀ entry ∈ EXTENSION_FOR_MIME,
        entry.2 ∈ extensions ∧ entry.2 ≠ FALLBACK_EXTENSION := by decide
    obtain ⟨entry, hentry, hproperty⟩ := property_of_names hown
    rw [hproperty, Option.getD_some]
    exact ⟨(hentries entry hentry).1, iff_of_true (hentries entry hentry).2 hown⟩
  · rw [property_of_not_names hown, List.find?_eq_none.mpr fun entry hentry hname =>
      h ⟨entry, hentry, by simpa using hname⟩, Option.map_none, Option.getD_none]
    exact ⟨by decide, iff_of_false (by simp) hown⟩

/-- The extension of a type that every object inherits is a text of its own. -/
theorem extensionOf_inherited (h : Names objectPrototype (toLowerCase mimetype)) :
    ∀ extension ∈ extensions,
      JsString.ofString extension ≠ JsString.ofString (extensionOf toLowerCase mimetype) := by
  have hown : ¬Names EXTENSION_FOR_MIME (toLowerCase mimetype) := fun hown =>
    not_names_both hown h
  have hne : ∀ entry ∈ objectPrototype, ∀ extension ∈ extensions,
      JsString.ofString extension ≠ JsString.ofString entry.2 := by decide
  obtain ⟨entry, hentry, hname⟩ := h
  unfold extensionOf
  rw [property_of_not_names hown]
  cases hfind : objectPrototype.find? fun entry =>
      JsString.ofString entry.1 = toLowerCase mimetype with
  | none => exact absurd hname (by simpa using List.find?_eq_none.mp hfind entry hentry)
  | some found => exact hne found (List.mem_of_find?_eq_some hfind)

/-! ## Inert paths -/

/-- `<groupId>/<uuid>-<stem>.<ext>` -/
def HasForm (groupId uuid : UuidText) (extension : String) (path : JsString) : Prop :=
  ∃ stem : JsString, (1 ≤ stem.length ∧ stem.length ≤ 80) ∧ (∀ u ∈ stem, isSafe u = true) ∧
    path = groupId.units ++ slash :: (uuid.units ++ hyphen :: (stem ++
      dot :: JsString.ofString extension))

/-- What an inert path is. -/
structure IsInert (toLowerCase : JsString → JsString) (groupId uuid : UuidText)
    (originalname mimetype : JsString) : Prop where
  /-- The extension is the same for all names. -/
  form : ∃ extension ∈ extensions,
    (extension ≠ FALLBACK_EXTENSION ↔ Names EXTENSION_FOR_MIME (toLowerCase mimetype)) ∧
      ∀ originalname, HasForm groupId uuid extension
        (objectPath toLowerCase groupId uuid originalname mimetype)
  oneSlash : List.count slash (objectPath toLowerCase groupId uuid originalname mimetype) = 1
  oneDot : List.count dot (objectPath toLowerCase groupId uuid originalname mimetype) = 1
  inside : ∀ uploadsDir,
    (uploadToLocal uploadsDir
        (objectPath toLowerCase groupId uuid originalname mimetype)).directory =
      uploadsDir ++ [groupId.units] ∧
    ∃ name, (uploadToLocal uploadsDir
        (objectPath toLowerCase groupId uuid originalname mimetype)).absPath =
      uploadsDir ++ [groupId.units] ++ [name]

/-- Every path has the form, with its own extension. -/
theorem hasForm_objectPath (toLowerCase : JsString → JsString) (groupId uuid : UuidText)
    (originalname mimetype : JsString) :
    HasForm groupId uuid (extensionOf toLowerCase mimetype)
      (objectPath toLowerCase groupId uuid originalname mimetype) :=
  ⟨stemOf originalname, (stemOf_spec originalname).1, (stemOf_spec originalname).2, rfl⟩

/-- The path gives its extension back. -/
theorem HasForm.extension_eq {extension extension' : String} {path : JsString}
    (h : HasForm groupId uuid extension path) (h' : HasForm groupId uuid extension' path) :
    JsString.ofString extension = JsString.ofString extension' := by
  obtain ⟨stem, -, hstem, rfl⟩ := h
  obtain ⟨stem', -, hstem', hpath⟩ := h'
  obtain ⟨-, hrest⟩ := List.cons.inj (List.append_cancel_left hpath)
  obtain ⟨-, hrest⟩ := List.cons.inj (List.append_cancel_left hrest)
  exact (append_cons_inj (not_mem_of_isSafe hstem (by decide))
    (not_mem_of_isSafe hstem' (by decide)) hrest).2

theorem count_eq_zero_of_isSafe {us : JsString} {mark : CodeUnit}
    (hus : ∀ u ∈ us, isSafe u = true) (hmark : isSafe mark = false) : List.count mark us = 0 :=
  List.count_eq_zero.mpr (not_mem_of_isSafe hus hmark)

theorem marks_not_mem_extension {extension : String} (h : extension ∈ extensions) :
    slash ∉ JsString.ofString extension ∧ dot ∉ JsString.ofString extension := by
  have hplain : ∀ extension ∈ extensions, slash ∉ JsString.ofString extension ∧
      dot ∉ JsString.ofString extension := by decide
  exact hplain extension h

/-- A path of the form has one slash and one dot. -/
theorem HasForm.count_eq {extension : String} {path : JsString}
    (h : HasForm groupId uuid extension path) (hextension : extension ∈ extensions) :
    List.count slash path = 1 ∧ List.count dot path = 1 := by
  obtain ⟨hslash, hdot⟩ := marks_not_mem_extension hextension
  obtain ⟨stem, hlength, hstem, rfl⟩ := h
  have hgroup := isSafe_of_mem_units groupId
  have huuid := isSafe_of_mem_units uuid
  constructor
  · rw [List.count_append, List.count_cons_self, List.count_append,
      List.count_cons_of_ne (by decide), List.count_append, List.count_cons_of_ne (by decide),
      count_eq_zero_of_isSafe hgroup (by decide), count_eq_zero_of_isSafe huuid (by decide),
      count_eq_zero_of_isSafe hstem (by decide), List.count_eq_zero.mpr hslash]
  · rw [List.count_append, List.count_cons_of_ne (by decide), List.count_append,
      List.count_cons_of_ne (by decide), List.count_append, List.count_cons_self,
      count_eq_zero_of_isSafe hgroup (by decide), count_eq_zero_of_isSafe huuid (by decide),
      count_eq_zero_of_isSafe hstem (by decide), List.count_eq_zero.mpr hdot]

/-! ## Inside the directory -/

theorem units_ne_nil (id : UuidText) : id.units ≠ [] := by
  obtain ⟨c, rest, hcs, -⟩ := exists_of_fits_cons id.property
  have hunits : unitsOfChar c ≠ [] := by
    unfold unitsOfChar
    split_ifs
    · exact List.cons_ne_nil _ _
    · exact List.cons_ne_nil _ _
  unfold UuidText.units JsString.ofString
  rw [hcs, List.flatMap_cons]
  exact fun h => hunits (List.append_eq_nil_iff.mp h).1

/-- A segment that is not made of dots is a directory or a file of this name. -/
theorem enter_of_mem {dir : List JsString} {segment : JsString} {u : CodeUnit}
    (h : u ∈ segment) (hu : u ≠ dot) : enter dir segment = dir ++ [segment] := by
  have hdots : u ∉ JsString.ofString "." ∧ u ∉ JsString.ofString ".." :=
    ⟨fun h => hu (List.mem_singleton.mp h), fun h => by
      rcases List.mem_cons.mp h with h | h
      · exact hu h
      · exact hu (List.mem_singleton.mp h)⟩
  unfold enter
  rw [if_neg, if_neg]
  · rintro rfl
    exact hdots.2 h
  · rintro (rfl | rfl)
    · exact List.not_mem_nil h
    · exact hdots.1 h

/-- The way up leads out of the last segment. -/
theorem join_up (dir : List JsString) (segment : JsString) :
    join (dir ++ [segment]) (JsString.ofString "..") = dir := by
  have hsegments : (JsString.ofString "..").splitOn slash = [JsString.ofString ".."] :=
    List.splitOn_eq_singleton (by decide)
  unfold join
  rw [hsegments, List.foldl_cons, List.foldl_nil]
  unfold enter
  rw [if_neg (by decide), if_pos rfl, List.dropLast_concat]

/-- **A path of the form leads to a file in the directory of its group.** -/
theorem HasForm.inside {extension : String} {path : JsString}
    (h : HasForm groupId uuid extension path) (hextension : extension ∈ extensions)
    (uploadsDir : List JsString) :
    (uploadToLocal uploadsDir path).directory = uploadsDir ++ [groupId.units] ∧
      ∃ name, (uploadToLocal uploadsDir path).absPath = uploadsDir ++ [groupId.units] ++ [name] := by
  obtain ⟨hslash, -⟩ := marks_not_mem_extension hextension
  obtain ⟨stem, -, hstem, rfl⟩ := h
  have hgroup := isSafe_of_mem_units groupId
  obtain ⟨u, us, hunits⟩ := List.exists_cons_of_ne_nil (units_ne_nil groupId)
  have hu : u ∈ groupId.units := hunits ▸ List.mem_cons_self
  have hudot : u ≠ dot := fun h => absurd (hgroup u hu) (by rw [h]; decide)
  set name := uuid.units ++ hyphen :: (stem ++ dot :: JsString.ofString extension) with hname
  have hnoslash : slash ∉ name := by
    simp only [hname, List.mem_append, List.mem_cons, not_or]
    exact ⟨not_mem_of_isSafe (isSafe_of_mem_units uuid) (by decide), by decide,
      not_mem_of_isSafe hstem (by decide), by decide, hslash⟩
  have hhyphen : hyphen ∈ name :=
    List.mem_append_right _ List.mem_cons_self
  have hpath : join uploadsDir (groupId.units ++ slash :: name) =
      uploadsDir ++ [groupId.units] ++ [name] := by
    unfold join
    rw [List.splitOn_append_cons_self_of_not_mem (not_mem_of_isSafe hgroup (by decide)),
      List.splitOn_eq_singleton hnoslash, List.foldl_cons, List.foldl_cons, List.foldl_nil,
      enter_of_mem hu hudot, enter_of_mem hhyphen (by decide)]
  unfold uploadToLocal
  dsimp only
  rw [hpath]
  exact ⟨join_up _ _, name, rfl⟩

/-- A type that every object has as a property gives a path that is not inert. -/
theorem not_isInert_of_inherited (h : Names objectPrototype (toLowerCase mimetype)) :
    ¬IsInert toLowerCase groupId uuid originalname mimetype := by
  rintro ⟨⟨extension, hextension, -, hform⟩, -, -, -⟩
  exact extensionOf_inherited h extension hextension
    ((hform originalname).extension_eq (hasForm_objectPath _ _ _ _ _))

/-- **Stored upload paths are inert, but for the types that every object has as
properties.** -/
theorem isInert_iff (toLowerCase : JsString → JsString) (groupId uuid : UuidText)
    (originalname mimetype : JsString) :
    IsInert toLowerCase groupId uuid originalname mimetype ↔
      ¬Names objectPrototype (toLowerCase mimetype) := by
  constructor
  · exact fun hinert hinherited => not_isInert_of_inherited hinherited hinert
  · intro hinherited
    obtain ⟨hextension, hfallback⟩ := extensionOf_spec hinherited
    have hform := hasForm_objectPath toLowerCase groupId uuid originalname mimetype
    obtain ⟨hslash, hdot⟩ := hform.count_eq hextension
    exact ⟨⟨extensionOf toLowerCase mimetype, hextension, hfallback, fun originalname =>
      hasForm_objectPath toLowerCase groupId uuid originalname mimetype⟩, hslash, hdot,
      fun uploadsDir => hform.inside hextension uploadsDir⟩

/-- An identifier to put into a path. -/
def someId : UuidText := ⟨"018f0000-0000-7000-8000-0000000000ab", by decide⟩

/-- **The type `constructor` is no type, and its extension is the text of a function.** -/
theorem not_isInert_constructor :
    ¬IsInert asciiLowerCase.toLowerCase someId someId (JsString.ofString "a.png")
      (JsString.ofString "constructor") :=
  not_isInert_of_inherited ⟨_, List.mem_cons_self, by decide⟩

end Storage
end GroupChat
