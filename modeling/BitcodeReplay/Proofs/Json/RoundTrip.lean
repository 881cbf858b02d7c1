import BitcodeReplay.Json.Printer
import BitcodeReplay.Json.Record
import Mathlib.Data.List.DropRight
import Mathlib.Data.List.Forall2
import Mathlib.Data.List.Nodup

/-!
Reading what has been printed. A value without numbers whose objects name each member once is read
back as it was, whatever its texts hold and however deep it is indented. The reader is followed
along the text: it reads the text of a value off the front, and leaves the rest.
-/

namespace BitcodeReplay.Json

/-! ### Values and their drafts -/

/-- A value without numbers, whose objects name each member once, with at most so many containers
inside each other. -/
inductive Plain : Nat → Json → Prop
  | null {room : Nat} : Plain room .null
  | bool {room : Nat} (b : Bool) : Plain room (.bool b)
  | string {room : Nat} (text : String) : Plain room (.string text)
  | array {room : Nat} {items : List Json} (h : ∀ item ∈ items, Plain room item) :
      Plain (room + 1) (.array items)
  | object {room : Nat} {members : List (String × Json)} (names : (members.map (·.1)).Nodup)
      (h : ∀ member ∈ members, Plain room member.2) : Plain (room + 1) (.object members)

mutual

/-- The draft of a value that is written out to its end. -/
def draft : Json → Draft
  | .null => .null
  | .bool b => .bool b
  | .number literal => .number literal.toList
  | .string text => .string (some text)
  | .array items => .array (draftItems items) true
  | .object members => .object (draftMembers members) true

def draftItems : List Json → List Draft
  | [] => []
  | item :: rest => item.draft :: draftItems rest

def draftMembers : List (String × Json) → List (Option String × Draft)
  | [] => []
  | (name, value) :: rest => (some name, value.draft) :: draftMembers rest

end

variable {room fuel : Nat} {v : Json} {items : List Json} {members : List (String × Json)}
  {cs rest spaces : List Char}

theorem setMember_of_not_mem {name : String} (h : name ∉ members.map (·.1)) (value : Json) :
    setMember name value members = members ++ [(name, value)] := by
  induction members with
  | nil => rfl
  | cons member rest ih =>
    obtain ⟨n, known⟩ := member
    simp only [List.map_cons, List.mem_cons, not_or] at h
    rw [setMember, if_neg (Ne.symm h.1), ih h.2, List.cons_append]

theorem settleItems_draft (h : ∀ item ∈ items, item.draft.settle room = some item) :
    settleItems room (draftItems items) = some items := by
  induction items with
  | nil => simp [draftItems, settleItems]
  | cons item rest ih =>
    simp [draftItems, settleItems, h item List.mem_cons_self,
      ih fun other hother => h other (List.mem_cons_of_mem _ hother)]

theorem settleMembers_draft {known : List (String × Json)}
    (hnames : ((known ++ members).map (·.1)).Nodup)
    (h : ∀ member ∈ members, member.2.draft.settle room = some member.2) :
    settleMembers room (draftMembers members) known = some (known ++ members) := by
  induction members generalizing known with
  | nil => simp [draftMembers, settleMembers]
  | cons member rest ih =>
    obtain ⟨name, value⟩ := member
    have hfresh : name ∉ known.map (·.1) := by
      intro hmem
      rw [List.map_append, List.map_cons] at hnames
      exact (List.disjoint_of_nodup_append hnames) hmem List.mem_cons_self
    have hvalue : value.draft.settle room = some value := h (name, value) List.mem_cons_self
    simp only [draftMembers, settleMembers, hvalue, bind, Option.bind, setMember_of_not_mem hfresh]
    rw [ih (by simpa using hnames) fun other hother => h other (List.mem_cons_of_mem _ hother),
      List.append_assoc, List.singleton_append]

theorem Plain.settle_draft (h : Plain room v) : v.draft.settle room = some v := by
  induction h with
  | null => simp [draft, Draft.settle]
  | bool b => simp [draft, Draft.settle]
  | string text => simp [draft, Draft.settle]
  | array h ih => simp [draft, Draft.settle, settleItems_draft ih]
  | @object room members names h ih =>
    have hmembers : settleMembers room (draftMembers members) [] = some ([] ++ members) :=
      settleMembers_draft (by simpa using names) ih
    simp [draft, Draft.settle, hmembers]

/-! ### Strings -/

/-- A part of a string that stands for a character, and is what the escape of the character is read
as. -/
structure IsPiece (c : Char) (p : Piece) : Prop where
  read : ∀ rest, pieces (escape c ++ rest) = (pieces rest).map fun q => (p :: q.1, q.2)
  meaning : ∀ ps, joinPieces (p :: ps) = (joinPieces ps).map (c :: ·)

theorem isPiece_char {c : Char}
    (h : ∀ rest, pieces (escape c ++ rest) = (pieces rest).map fun q => (.char c :: q.1, q.2)) :
    IsPiece c (.char c) := ⟨h, fun _ => by rw [joinPieces]⟩

theorem hexValue?_hexDigit {n : Nat} (h : n < 16) : hexValue? (hexDigit n) = some n := by
  revert n
  decide

/-- The number of a control character is no half of another one. -/
theorem joinPieces_unit {c : Char} (h : c.toNat < 0x20) (ps : List Piece) :
    joinPieces (.unit c.toNat :: ps) = (joinPieces ps).map (c :: ·) := by
  have hlow : ¬ 0xD800 ≤ c.toNat := by omega
  have hhigh : ¬ 0xDC00 ≤ c.toNat := by omega
  cases ps with
  | nil => simp [joinPieces, hlow]
  | cons p ps => cases p <;> simp [joinPieces, hlow, hhigh]

theorem isPiece_unit {c : Char} (h : c.toNat < 0x20) (hescape : escape c =
    ['\\', 'u', '0', '0', hexDigit (c.toNat / 16), hexDigit (c.toNat % 16)]) :
    IsPiece c (.unit c.toNat) := by
  refine ⟨fun rest => ?_, joinPieces_unit h⟩
  have hzero : hexValue? '0' = some 0 := by decide
  have hnumber : ((0 * 16 + 0) * 16 + c.toNat / 16) * 16 + c.toNat % 16 = c.toNat := by omega
  rw [hescape]
  simp only [List.cons_append, List.nil_append, pieces, hzero,
    hexValue?_hexDigit (show c.toNat / 16 < 16 by omega),
    hexValue?_hexDigit (show c.toNat % 16 < 16 by omega), hnumber]

theorem exists_isPiece (c : Char) : ∃ p, IsPiece c p := by
  by_cases hshort : c = '"' ∨ c = '\\' ∨ c = '\n' ∨ c = '\r' ∨ c = '\t' ∨ c = '\x08' ∨ c = '\x0c'
  · refine ⟨.char c, isPiece_char fun rest => ?_⟩
    rcases hshort with rfl | rfl | rfl | rfl | rfl | rfl | rfl <;>
      simp [escape, pieces, shortEscape?]
  simp only [not_or] at hshort
  obtain ⟨hquote, hslash, hfeed, hreturn, htab, hback, hform⟩ := hshort
  by_cases hcontrol : c.toNat < 0x20
  · refine ⟨.unit c.toNat, isPiece_unit hcontrol ?_⟩
    simp [escape, hquote, hslash, hfeed, hreturn, htab, hback, hform, hcontrol]
  · refine ⟨.char c, isPiece_char fun rest => ?_⟩
    simp [escape, hquote, hslash, hfeed, hreturn, htab, hback, hform, hcontrol, pieces]

theorem exists_pieces (cs rest : List Char) : ∃ ps,
    pieces (cs.flatMap escape ++ '"' :: rest) = some (ps, rest) ∧ joinPieces ps = some cs := by
  induction cs with
  | nil => exact ⟨[], by simp [pieces], by simp [joinPieces]⟩
  | cons c cs ih =>
    obtain ⟨ps, hread, hmeaning⟩ := ih
    obtain ⟨p, hp⟩ := exists_isPiece c
    refine ⟨p :: ps, ?_, ?_⟩
    · rw [List.flatMap_cons, List.append_assoc, hp.read, hread, Option.map_some]
    · rw [hp.meaning, hmeaning, Option.map_some]

theorem toList_quoted (text : String) :
    (quoted text).toList = '"' :: (text.toList.flatMap escape ++ ['"']) := by
  simp [quoted]

/-- A string is read up to its closing quote. -/
theorem readString_escape (text : String) (rest : List Char) :
    readString (text.toList.flatMap escape ++ '"' :: rest) = some (some text, rest) := by
  obtain ⟨ps, hread, hmeaning⟩ := exists_pieces text.toList rest
  rw [readString, hread, Option.map_some, hmeaning, Option.map_some, String.ofList_toList]

/-! ### White space -/

theorem skipSpace_append (h : ∀ c ∈ spaces, isSpace c = true) (cs : List Char) :
    skipSpace (spaces ++ cs) = skipSpace cs := List.dropWhile_append_of_pos h

theorem skipSpace_skipSpace (cs : List Char) : skipSpace (skipSpace cs) = skipSpace cs := by
  exact List.dropWhile_idempotent ..

theorem skipSpace_cons {c : Char} (h : isSpace c = false) (cs : List Char) :
    skipSpace (c :: cs) = c :: cs := by rw [skipSpace, List.dropWhile_cons, h, if_neg (by simp)]

theorem skipSpace_blank (cs : List Char) : skipSpace (' ' :: cs) = skipSpace cs :=
  List.dropWhile_cons_of_pos (by decide)

theorem skipSpace_feed (cs : List Char) : skipSpace ('\n' :: cs) = skipSpace cs :=
  List.dropWhile_cons_of_pos (by decide)

theorem readValue_congr {cs' : List Char} (h : skipSpace cs = skipSpace cs') (fuel : Nat) :
    readValue fuel cs = readValue fuel cs' := by
  cases fuel with
  | zero => rw [readValue, readValue]
  | succ fuel => rw [readValue, readValue, h]

theorem readItems_congr {cs' : List Char} (h : skipSpace cs = skipSpace cs') (fuel : Nat) :
    readItems fuel cs = readItems fuel cs' := by
  cases fuel with
  | zero => rw [readItems, readItems]
  | succ fuel => rw [readItems, readItems, readValue_congr h]

theorem readMembers_congr {cs' : List Char} (h : skipSpace cs = skipSpace cs') (fuel : Nat) :
    readMembers fuel cs = readMembers fuel cs' := by
  cases fuel with
  | zero => rw [readMembers, readMembers]
  | succ fuel => rw [readMembers, readMembers, h]

/-! ### Containers -/

/-- No value starts with a closing bracket. -/
theorem readValue_bracket (fuel : Nat) (cs : List Char) :
    readValue fuel (']' :: cs) = (.broken, none) := by
  cases fuel with
  | zero => rw [readValue]
  | succ fuel =>
    simp [readValue, skipSpace, isSpace, readNumber, unsignedNumber, integerPart, digits]

theorem readValue_array {drafts : List Draft} (h : readItems fuel cs = (drafts, some rest)) :
    readValue (fuel + 1) ('[' :: cs) = (.array drafts true, some rest) := by
  rw [readValue, skipSpace_cons (by decide)]
  simp only [if_pos]
  split
  next more hclosed =>
    -- an array that closes at once has no items to read
    have hbracket : readItems fuel cs = readItems fuel (']' :: more) :=
      readItems_congr (by rw [hclosed, skipSpace_cons (by decide)]) fuel
    rw [hbracket] at h
    cases fuel with
    | zero => simp [readItems] at h
    | succ fuel => simp [readItems, readValue_bracket] at h
  next =>
    rw [readItems_congr (skipSpace_skipSpace cs), h]
    rfl

theorem readValue_object {drafts : List (Option String × Draft)}
    (h : readMembers fuel cs = (drafts, some rest)) :
    readValue (fuel + 1) ('\x7b' :: cs) = (.object drafts true, some rest) := by
  rw [readValue, skipSpace_cons (by decide)]
  simp only [if_pos, if_neg (show '\x7b' ≠ '[' by decide)]
  split
  next more hclosed =>
    have hbrace : readMembers fuel cs = readMembers fuel ('\x7d' :: more) :=
      readMembers_congr (by rw [hclosed, skipSpace_cons (by decide)]) fuel
    rw [hbrace] at h
    cases fuel with
    | zero => simp [readMembers] at h
    | succ fuel => simp [readMembers, skipSpace, isSpace] at h
  next =>
    rw [readMembers_congr (skipSpace_skipSpace cs), h]
    rfl

/-- Whatever follows the text, and with fuel for its length, the draft of the value is read off the
front. -/
def Reads (v : Json) (text : List Char) : Prop :=
  ∀ fuel rest, 2 * text.length < fuel → readValue fuel (text ++ rest) = (v.draft, some rest)

/-- The text of a member starts with its name. -/
def memberText (name : String) (text : List Char) : List Char :=
  (quoted name).toList ++ ':' :: ' ' :: text

/-- The text of a member is read as its name and what its value is read as. -/
def ReadsMember (member : String × Json) (text : List Char) : Prop :=
  ∃ value, text = memberText member.1 value ∧ Reads member.2 value

/-- What is read of members once the first of them has its value. -/
def membersFrom (fuel : Nat) (member : Option String × Draft) (cs : List Char) :
    List (Option String × Draft) × Option (List Char) :=
  match skipSpace cs with
  | '\x7d' :: rest => ([member], some rest)
  | ',' :: rest =>
    let (members, after) := readMembers fuel rest
    (member :: members, after)
  | _ => ([member], none)

section Parts

variable {text ending : List Char} (hread : Reads v text) (hfuel : 2 * text.length < fuel)
include hread hfuel

theorem readItems_last (hending : ∀ c ∈ ending, isSpace c = true) (rest : List Char) :
    readItems (fuel + 1) (text ++ (ending ++ ']' :: rest)) = ([v.draft], some rest) := by
  simp only [readItems, hread _ _ hfuel, skipSpace_append hending]
  rw [skipSpace_cons (by decide)]
  rfl

theorem readItems_next {drafts : List Draft} {after : Option (List Char)}
    (h : readItems fuel cs = (drafts, after)) :
    readItems (fuel + 1) (text ++ ',' :: cs) = (v.draft :: drafts, after) := by
  simp only [readItems, hread _ _ hfuel]
  rw [skipSpace_cons (by decide)]
  simp only [h]

/-- A member is read up to the end of its value. -/
theorem readMembers_eq (name : String) (cs : List Char) :
    readMembers (fuel + 1) (memberText name text ++ cs) =
      membersFrom fuel (some name, v.draft) cs := by
  have hvalue : readValue fuel (' ' :: (text ++ cs)) = (v.draft, some cs) := by
    rw [← hread _ _ hfuel]
    exact readValue_congr (skipSpace_blank _) fuel
  rw [memberText, toList_quoted, readMembers]
  simp only [List.cons_append, List.append_assoc, List.nil_append]
  rw [skipSpace_cons (by decide)]
  simp only [readString_escape]
  rw [skipSpace_cons (by decide)]
  simp only [hvalue]
  rfl

theorem readMembers_last (hending : ∀ c ∈ ending, isSpace c = true) (name : String)
    (rest : List Char) :
    readMembers (fuel + 1) (memberText name text ++ (ending ++ '\x7d' :: rest)) =
      ([(some name, v.draft)], some rest) := by
  rw [readMembers_eq hread hfuel, membersFrom, skipSpace_append hending, skipSpace_cons (by decide)]
  rfl

theorem readMembers_next {drafts : List (Option String × Draft)} {after : Option (List Char)}
    (h : readMembers fuel cs = (drafts, after)) (name : String) :
    readMembers (fuel + 1) (memberText name text ++ ',' :: cs) =
      ((some name, v.draft) :: drafts, after) := by
  rw [readMembers_eq hread hfuel, membersFrom, skipSpace_cons (by decide)]
  simp only [h]

end Parts

/-- Texts on lines of their own, all but the last with a comma behind it. -/
def joinLines (lead : List Char) (texts : List (List Char)) : List Char :=
  [',', '\n'].intercalate (texts.map (lead ++ ·))

section Lines

variable {lead ending text : List Char} {texts : List (List Char)}

theorem joinLines_singleton (lead text : List Char) : joinLines lead [text] = lead ++ text := by
  rw [joinLines, List.map_singleton, List.intercalate_singleton]

theorem joinLines_cons (lead text : List Char) (htexts : texts ≠ []) :
    joinLines lead (text :: texts) = lead ++ (text ++ ',' :: '\n' :: joinLines lead texts) := by
  rw [joinLines, List.map_cons, List.intercalate_cons_of_ne_nil (by simpa using htexts)]
  simp [joinLines]

variable (hlead : ∀ c ∈ lead, isSpace c = true) (hending : ∀ c ∈ ending, isSpace c = true)
include hlead hending

/-- The items of an array are read off their lines. -/
theorem readItems_lines (h : List.Forall₂ Reads items texts) (hne : texts ≠ [])
    (hfuel : 2 * (joinLines lead texts).length + 1 < fuel) (rest : List Char) :
    readItems fuel (joinLines lead texts ++ (ending ++ ']' :: rest)) =
      (draftItems items, some rest) := by
  induction h generalizing fuel with
  | nil => exact absurd rfl hne
  | @cons item text items texts hitem htexts ih =>
    obtain ⟨fuel, rfl⟩ : ∃ f, fuel = f + 1 := ⟨fuel - 1, by omega⟩
    by_cases hlast : texts = []
    · subst hlast
      cases htexts
      rw [joinLines_singleton, List.length_append] at hfuel
      rw [joinLines_singleton, List.append_assoc, readItems_congr (skipSpace_append hlead _),
        readItems_last hitem (by omega) hending]
      rfl
    · rw [joinLines_cons _ _ hlast] at hfuel ⊢
      simp only [List.length_append, List.length_cons] at hfuel
      have hrest := ih hlast (show 2 * (joinLines lead texts).length + 1 < fuel by omega)
      rw [← readItems_congr (skipSpace_feed _)] at hrest
      simp only [List.append_assoc, List.cons_append]
      rw [readItems_congr (skipSpace_append hlead _), readItems_next hitem (by omega) hrest]
      rfl

theorem readMembers_lines
    (h : List.Forall₂ ReadsMember members texts) (hne : texts ≠ [])
    (hfuel : 2 * (joinLines lead texts).length + 1 < fuel) (rest : List Char) :
    readMembers fuel (joinLines lead texts ++ (ending ++ '\x7d' :: rest)) =
      (draftMembers members, some rest) := by
  induction h generalizing fuel with
  | nil => exact absurd rfl hne
  | @cons member text members texts hmember htexts ih =>
    obtain ⟨fuel, rfl⟩ : ∃ f, fuel = f + 1 := ⟨fuel - 1, by omega⟩
    obtain ⟨value, rfl, hvalue⟩ := hmember
    have hlength : value.length ≤ (memberText member.1 value).length := by
      simp [memberText]
      omega
    by_cases hlast : texts = []
    · subst hlast
      cases htexts
      rw [joinLines_singleton, List.length_append] at hfuel
      rw [joinLines_singleton, List.append_assoc, readMembers_congr (skipSpace_append hlead _),
        readMembers_last hvalue (by omega) hending]
      rfl
    · rw [joinLines_cons _ _ hlast] at hfuel ⊢
      simp only [List.length_append, List.length_cons] at hfuel
      have hrest := ih hlast (show 2 * (joinLines lead texts).length + 1 < fuel by omega)
      rw [← readMembers_congr (skipSpace_feed _)] at hrest
      simp only [List.append_assoc, List.cons_append]
      rw [readMembers_congr (skipSpace_append hlead _), readMembers_next hvalue (by omega) hrest]
      rfl

end Lines

/-! ### Whole values -/

theorem prettyItems_eq (level : Nat) (items : List Json) :
    prettyItems level items = items.map (prettyAt level) := by
  induction items with
  | nil => rw [prettyItems, List.map_nil]
  | cons item rest ih => rw [prettyItems, ih, List.map_cons]

theorem toList_prettyMembers (level : Nat) (members : List (String × Json)) :
    (prettyMembers level members).map String.toList =
      members.map fun member => memberText member.1 (prettyAt level member.2).toList := by
  induction members with
  | nil => rw [prettyMembers, List.map_nil, List.map_nil]
  | cons member rest ih =>
    obtain ⟨name, value⟩ := member
    rw [prettyMembers, List.map_cons, List.map_cons, ih]
    simp [memberText]

theorem toList_indent (level : Nat) : (indent level).toList = List.replicate (2 * level) ' ' := by
  simp [indent]

theorem isSpace_indent (level : Nat) : ∀ c ∈ (indent level).toList, isSpace c = true := by
  intro c hc
  rw [toList_indent] at hc
  rw [(List.mem_replicate.1 hc).2]
  decide

theorem isSpace_feed_indent (level : Nat) :
    ∀ c ∈ '\n' :: (indent level).toList, isSpace c = true :=
  List.forall_mem_cons.2 ⟨by decide, isSpace_indent level⟩

/-- The text of a container that holds something. -/
theorem toList_block {first last : String} {level : Nat} {parts : List String} (h : parts ≠ []) :
    (block first last level parts).toList = first.toList ++ '\n' ::
      (joinLines (indent (level + 1)).toList (parts.map String.toList) ++
        ('\n' :: (indent level).toList ++ last.toList)) := by
  have hlines : (parts.map (indent (level + 1) ++ ·)).map String.toList =
      (parts.map String.toList).map ((indent (level + 1)).toList ++ ·) := by
    simp
  rw [block, if_neg h]
  simp only [String.toList_append, String.toList_intercalate, hlines, joinLines]
  simp

theorem reads_string (text : String) : Reads (.string text) (quoted text).toList := by
  intro fuel rest hfuel
  obtain ⟨fuel, rfl⟩ : ∃ f, fuel = f + 1 := ⟨fuel - 1, by omega⟩
  rw [toList_quoted, List.cons_append, List.append_assoc, readValue, skipSpace_cons (by decide)]
  simp [readString_escape, draft]

theorem reads_array {texts : List (List Char)} {lead ending : List Char}
    (hlead : ∀ c ∈ lead, isSpace c = true) (hending : ∀ c ∈ ending, isSpace c = true)
    (h : List.Forall₂ Reads items texts) (hne : texts ≠ []) :
    Reads (.array items) ('[' :: '\n' :: (joinLines lead texts ++ (ending ++ [']']))) := by
  intro fuel rest hfuel
  obtain ⟨fuel, rfl⟩ : ∃ f, fuel = f + 1 := ⟨fuel - 1, by omega⟩
  simp only [List.length_cons, List.length_append] at hfuel
  have hitems := readItems_lines hlead hending h hne
    (show 2 * (joinLines lead texts).length + 1 < fuel by omega) rest
  rw [← readItems_congr (skipSpace_feed _)] at hitems
  simpa [draft] using readValue_array hitems

theorem reads_object {texts : List (List Char)} {lead ending : List Char}
    (hlead : ∀ c ∈ lead, isSpace c = true) (hending : ∀ c ∈ ending, isSpace c = true)
    (h : List.Forall₂ ReadsMember members texts) (hne : texts ≠ []) :
    Reads (.object members) ('\x7b' :: '\n' :: (joinLines lead texts ++ (ending ++ ['\x7d']))) := by
  intro fuel rest hfuel
  obtain ⟨fuel, rfl⟩ : ∃ f, fuel = f + 1 := ⟨fuel - 1, by omega⟩
  simp only [List.length_cons, List.length_append] at hfuel
  have hmembers := readMembers_lines hlead hending h hne
    (show 2 * (joinLines lead texts).length + 1 < fuel by omega) rest
  rw [← readMembers_congr (skipSpace_feed _)] at hmembers
  simpa [draft] using readValue_object hmembers

/-- An indented value is read back. -/
theorem Plain.reads_pretty (h : Plain room v) (level : Nat) :
    Reads v (prettyAt level v).toList := by
  induction h generalizing level with
  | null =>
    intro fuel rest hfuel
    obtain ⟨fuel, rfl⟩ : ∃ f, fuel = f + 1 := ⟨fuel - 1, by omega⟩
    simp [prettyAt, readValue, skipSpace_cons, isSpace, readLiteral, Text.dropStart?, draft]
  | bool b =>
    intro fuel rest hfuel
    obtain ⟨fuel, rfl⟩ : ∃ f, fuel = f + 1 := ⟨fuel - 1, by omega⟩
    cases b <;>
      simp [prettyAt, readValue, skipSpace_cons, isSpace, readLiteral, Text.dropStart?, draft]
  | string text =>
    rw [prettyAt]
    exact reads_string text
  | @array room items h ih =>
    rw [prettyAt]
    by_cases hitems : items = []
    · subst hitems
      intro fuel rest hfuel
      obtain ⟨fuel, rfl⟩ : ∃ f, fuel = f + 1 := ⟨fuel - 1, by omega⟩
      simp [prettyItems, block, readValue, skipSpace_cons, isSpace, draft, draftItems]
    · have hreads : List.Forall₂ Reads items
          ((prettyItems (level + 1) items).map String.toList) := by
        rw [prettyItems_eq, List.forall₂_map_right_iff, List.forall₂_map_right_iff,
          List.forall₂_same]
        exact fun item hitem => ih item hitem (level + 1)
      have hparts : prettyItems (level + 1) items ≠ [] := by simpa [prettyItems_eq] using hitems
      rw [toList_block hparts]
      exact reads_array (isSpace_indent _) (isSpace_feed_indent _) hreads (by simpa using hparts)
  | @object room members names h ih =>
    rw [prettyAt]
    by_cases hmembers : members = []
    · subst hmembers
      intro fuel rest hfuel
      obtain ⟨fuel, rfl⟩ : ∃ f, fuel = f + 1 := ⟨fuel - 1, by omega⟩
      simp [prettyMembers, block, readValue, skipSpace_cons, isSpace, draft, draftMembers]
    · have hreads : List.Forall₂ ReadsMember members
          ((prettyMembers (level + 1) members).map String.toList) := by
        rw [toList_prettyMembers, List.forall₂_map_right_iff, List.forall₂_same]
        exact fun member hmember => ⟨_, rfl, ih member hmember (level + 1)⟩
      have hparts : prettyMembers (level + 1) members ≠ [] := by
        intro hnil
        have htexts := toList_prettyMembers (level + 1) members
        rw [hnil] at htexts
        exact hmembers (List.map_eq_nil_iff.1 htexts.symm)
      rw [toList_block hparts]
      exact reads_object (isSpace_indent _) (isSpace_feed_indent _) hreads (by simpa using hparts)

/-- A printed value is read to its end. -/
theorem Plain.read_pretty (h : Plain room v) : Draft.read v.pretty.toList = (v.draft, true) := by
  have hread := h.reads_pretty 0 (2 * v.pretty.toList.length + 2) [] (by rw [pretty]; omega)
  rw [List.append_nil, ← pretty] at hread
  rw [Draft.read, hread]
  rfl

section Decoding

variable {ρ τ : Type}

theorem Plain.decodeText_pretty (h : Plain room v) (decode : Draft → Except (DecodeError ρ) τ) :
    decodeText decode v.pretty.toList = decode v.draft := by
  rw [decodeText, h.read_pretty]
  cases decode v.draft <;> simp [bind, Except.bind, pure, Except.pure]

/-- Of a printed value inside so many containers the decoder sees the value. -/
theorem Plain.settled_draft {depth : Nat} (h : Plain (maxDepth - depth) v)
    (decode : Json → Except (DecodeError ρ) τ) : settled depth decode v.draft = decode v := by
  rw [settled, h.settle_draft]

end Decoding

end BitcodeReplay.Json
