import ItemTree.Proofs.Xml.Escape

/-!
# XML text as a conforming reader takes it

A reader by the rules of XML 1.0, for documents of elements only. It ends lines by line feeds first, then makes spaces
of the blanks in the value of an attribute, and then decodes references. Names of a document are names of XML, and no
element has the same attribute twice.

* `lineEnds`, `spaced`, `decode`: the three steps;
* `readDocument`: the reader;
* `lineEnds_escape`, `map_spaced_escape`: the first two steps act on an escaped value as on the value itself;
* `decode_escape`: the third step gives the value back.
-/

namespace ItemTree

/-! ## characters -/

namespace Xml.Conforming

/-- a character that a document may have -/
def isChar (c : Char) : Bool :=
  c == '\t' || c == '\n' || c == '\r' || (0x20 ≤ c.toNat && c.toNat ≤ 0xD7FF) ||
    (0xE000 ≤ c.toNat && c.toNat ≤ 0xFFFD) || 0x10000 ≤ c.toNat

/-- first and last code points of the characters that begin names -/
def nameStarts : List (Nat × Nat) :=
  [(0x3A, 0x3A), (0x41, 0x5A), (0x5F, 0x5F), (0x61, 0x7A), (0xC0, 0xD6), (0xD8, 0xF6), (0xF8, 0x2FF), (0x370, 0x37D),
    (0x37F, 0x1FFF), (0x200C, 0x200D), (0x2070, 0x218F), (0x2C00, 0x2FEF), (0x3001, 0xD7FF), (0xF900, 0xFDCF),
    (0xFDF0, 0xFFFD), (0x10000, 0xEFFFF)]

/-- first and last code points of the other characters of names -/
def nameParts : List (Nat × Nat) :=
  [(0x2D, 0x2E), (0x30, 0x39), (0xB7, 0xB7), (0x300, 0x36F), (0x203F, 0x2040)]

def inRanges (ranges : List (Nat × Nat)) (c : Char) : Bool := ranges.any fun r => r.1 ≤ c.toNat && c.toNat ≤ r.2

def isNameStart (c : Char) : Bool := inRanges nameStarts c

def isNameChar (c : Char) : Bool := inRanges (nameStarts ++ nameParts) c

def isName (s : String) : Bool :=
  match s.toList with
  | [] => false
  | c :: cs => isNameStart c && cs.all isNameChar

def isBlank (c : Char) : Bool := c == ' ' || c == '\t' || c == '\n' || c == '\r'

/-! ## the three steps -/

/-- lines end by line feeds -/
def lineEnds : List Char → List Char
  | '\r' :: '\n' :: cs => '\n' :: lineEnds cs
  | '\r' :: cs => '\n' :: lineEnds cs
  | c :: cs => c :: lineEnds cs
  | [] => []

/-- a space for a blank -/
def spaced (c : Char) : Char := if isBlank c then ' ' else c

def digitValue? (base : Nat) (c : Char) : Option Nat :=
  let value :=
    if '0' ≤ c ∧ c ≤ '9' then c.toNat - 48
    else if 'a' ≤ c ∧ c ≤ 'f' then c.toNat - 87
    else if 'A' ≤ c ∧ c ≤ 'F' then c.toNat - 55
    else base
  if value < base then some value else none

/-- the character with a code point -/
def characterAt? (base : Nat) (ds : List Char) : Option Char := do
  let values ← ds.mapM (digitValue? base)
  let n := values.foldl (fun n d => n * base + d) 0
  if ds ≠ [] ∧ n.isValidChar ∧ isChar (Char.ofNat n) then some (Char.ofNat n) else none

/-- what a reference stands for; the argument is between ampersand and semicolon -/
def referent? : List Char → Option Char
  | ['a', 'm', 'p'] => some '&'
  | ['l', 't'] => some '<'
  | ['g', 't'] => some '>'
  | ['q', 'u', 'o', 't'] => some '"'
  | ['a', 'p', 'o', 's'] => some '\''
  | '#' :: 'x' :: ds => characterAt? 16 ds
  | '#' :: ds => characterAt? 10 ds
  | _ => none

/-- references decoded from left to right; inside of one, its characters so far are kept in reverse -/
def decode : Option (List Char) → List Char → Option (List Char)
  | none, [] => some []
  | some _, [] => none
  | none, c :: cs => if c = '&' then decode (some []) cs else (decode none cs).map (c :: ·)
  | some name, c :: cs =>
    if c = ';' then do
      let x ← referent? name.reverse
      (decode none cs).map (x :: ·)
    else decode (some (c :: name)) cs

/-! ## the reader -/

def skipBlanks (cs : List Char) : List Char := cs.dropWhile isBlank

/-- a name at the front, as long as it goes -/
def readName : List Char → Option (String × List Char)
  | [] => none
  | c :: cs =>
    if isNameStart c then some (String.ofList (c :: cs.takeWhile isNameChar), cs.dropWhile isNameChar) else none

/-- a value in quotes of either kind -/
def readValue : List Char → Option (String × List Char)
  | [] => none
  | q :: cs =>
    if q = '"' ∨ q = '\'' then
      match cs.dropWhile (· != q) with
      | [] => none
      | _ :: rest =>
        if '<' ∈ cs.takeWhile (· != q) then none
        else (decode none ((cs.takeWhile (· != q)).map spaced)).map fun value => (String.ofList value, rest)
    else none

/-- name and value of an attribute, with blanks around the sign between them -/
def readAttribute (cs : List Char) : Option ((String × String) × List Char) := do
  let (name, cs) ← readName cs
  match skipBlanks cs with
  | '=' :: cs =>
    let (value, cs) ← readValue (skipBlanks cs)
    return ((name, value), cs)
  | _ => none

/-- attributes with blanks in front of them, up to the end of the tag -/
def readAttributes : Nat → List Char → Option (Attributes × List Char)
  | 0, _ => none
  | _ + 1, [] => none
  | fuel + 1, c :: cs =>
    if isBlank c then
      match skipBlanks cs with
      | '>' :: cs => some ([], '>' :: cs)
      | '/' :: cs => some ([], '/' :: cs)
      | cs => do
        let (a, cs) ← readAttribute cs
        let (as, cs) ← readAttributes fuel cs
        return (a :: as, cs)
    else some ([], c :: cs)

/-- the rest of a closing tag after its slash -/
def readClosing (tag : String) (cs : List Char) : Option (List Char) := do
  let (name, cs) ← readName cs
  match skipBlanks cs with
  | '>' :: cs => if name = tag then some cs else none
  | _ => none

mutual
/-- an element; the fuel bounds the number of characters it may have -/
def readElement : Nat → List Char → Option (Node × List Char)
  | fuel + 1, '<' :: cs => do
    let (tag, cs) ← readName cs
    let (as, cs) ← readAttributes fuel cs
    if (as.map Prod.fst).Nodup then
      match cs with
      | '/' :: '>' :: cs => return (⟨tag, as, []⟩, cs)
      | '>' :: cs =>
        let (children, cs) ← readContent fuel cs
        let cs ← readClosing tag cs
        return (⟨tag, as, children⟩, cs)
      | _ => none
    else none
  | _, _ => none
/-- elements up to the slash of a closing tag -/
def readContent : Nat → List Char → Option (List Node × List Char)
  | _ + 1, '<' :: '/' :: cs => some ([], cs)
  | fuel + 1, cs => do
    let (n, cs) ← readElement fuel cs
    let (ns, cs) ← readContent fuel cs
    return (n :: ns, cs)
  | 0, _ => none
end

/-- a document: legal characters, and one element with blanks around it -/
def readDocument (text : String) : Option Node :=
  let cs := skipBlanks (lineEnds text.toList)
  if text.toList.all isChar then
    match readElement cs.length cs with
    | some (n, rest) => if rest.all isBlank then some n else none
    | none => none
  else none

/-! ## facts about characters -/

theorem ne_of_isNameChar {c d : Char} (hc : isNameChar c = true) (hd : isNameChar d = false) : c ≠ d := by
  rintro rfl
  rw [hc] at hd
  cases hd

theorem isNameChar_of_isNameStart {c : Char} (h : isNameStart c = true) : isNameChar c = true := by
  unfold isNameStart inRanges at h
  unfold isNameChar inRanges
  rw [List.any_append, h, Bool.true_or]

theorem isBlank_of_isNameChar {c : Char} (h : isNameChar c = true) : isBlank c = false := by
  have h1 := ne_of_isNameChar h (d := ' ') (by decide)
  have h2 := ne_of_isNameChar h (d := '\t') (by decide)
  have h3 := ne_of_isNameChar h (d := '\n') (by decide)
  have h4 := ne_of_isNameChar h (d := '\r') (by decide)
  simp [isBlank, h1, h2, h3, h4]

theorem isChar_of_isNameChar {c : Char} (h : isNameChar c = true) : isChar c = true := by
  have hall : ∀ r ∈ nameStarts ++ nameParts,
      (0x20 ≤ r.1 ∧ r.2 ≤ 0xD7FF) ∨ (0xE000 ≤ r.1 ∧ r.2 ≤ 0xFFFD) ∨ 0x10000 ≤ r.1 := by decide
  obtain ⟨r, hr, hc⟩ := List.any_eq_true.1 h
  simp only [Bool.and_eq_true, decide_eq_true_eq] at hc
  simp only [isChar, Bool.or_eq_true, Bool.and_eq_true, decide_eq_true_eq]
  have := hall r hr
  omega

theorem exists_cons_of_isName {s : String} (h : isName s = true) :
    ∃ c cs, s.toList = c :: cs ∧ isNameStart c = true ∧ ∀ d ∈ cs, isNameChar d = true := by
  unfold isName at h
  split at h
  · cases h
  · rename_i c cs hs
    rw [Bool.and_eq_true, List.all_eq_true] at h
    exact ⟨c, cs, hs, h⟩

theorem isNameChar_of_mem {s : String} (h : isName s = true) {c : Char} (hc : c ∈ s.toList) : isNameChar c = true := by
  obtain ⟨d, ds, hs, hd, hds⟩ := exists_cons_of_isName h
  rw [hs] at hc
  rcases List.mem_cons.1 hc with rfl | hc
  · exact isNameChar_of_isNameStart hd
  · exact hds c hc

/-- an entity has no blanks -/
theorem isBlank_of_mem_escapeChar {c x : Char} (hc : isBlank c = false) (hx : x ∈ escapeChar c) :
    isBlank x = false := by
  have h := forall_mem_escapeChar (p := fun x => !isBlank x) (by decide) (fun _ => by simp [hc]) x hx
  simpa using h

theorem escapeChar_of_isBlank {c : Char} (hc : isBlank c = true) : escapeChar c = [c] := by
  simp only [isBlank, Bool.or_eq_true, beq_iff_eq] at hc
  rcases hc with ((rfl | rfl) | rfl) | rfl <;> rfl

/-! ## the steps on escaped values -/

theorem lineEnds_cons {c : Char} (hc : c ≠ '\r') (cs : List Char) : lineEnds (c :: cs) = c :: lineEnds cs := by
  rw [lineEnds.eq_def]
  split <;> simp_all

theorem lineEnds_return_cons {cs : List Char} (hcs : cs.head? ≠ some '\n') :
    lineEnds ('\r' :: cs) = '\n' :: lineEnds cs := by
  rw [lineEnds]
  rintro rest rfl
  exact hcs rfl

theorem lineEnds_append_of_not_mem {s : List Char} (hs : '\r' ∉ s) (t : List Char) :
    lineEnds (s ++ t) = s ++ lineEnds t := by
  induction s with
  | nil => rfl
  | cons c s ih =>
    rw [List.mem_cons, not_or] at hs
    rw [List.cons_append, lineEnds_cons (Ne.symm hs.1), ih hs.2, List.cons_append]

/-- a text is cut anywhere but before a line feed -/
theorem lineEnds_append (s : List Char) {t : List Char} (ht : t.head? ≠ some '\n') :
    lineEnds (s ++ t) = lineEnds s ++ lineEnds t := by
  fun_induction lineEnds s with
  | case1 cs ih => exact congrArg ('\n' :: ·) ih
  | case2 cs hcs ih =>
    have hhead : (cs ++ t).head? ≠ some '\n' := by
      cases cs with
      | nil => exact ht
      | cons c cs =>
        intro hc
        cases hc
        exact hcs cs rfl
    rw [List.cons_append, lineEnds_return_cons hhead, ih, List.cons_append]
  | case3 c cs hreturn hc ih =>
    rw [List.cons_append, lineEnds_cons (fun h => hc h), ih, List.cons_append]
  | case4 => rfl

theorem head?_escape_ne {s : List Char} (hs : s.head? ≠ some '\n') : (escape s).head? ≠ some '\n' := by
  cases s with
  | nil => exact hs
  | cons c s =>
    have hc : c ≠ '\n' := fun h => hs (congrArg some h)
    rw [escape_cons]
    rcases markup_or_plain c with rfl | rfl | rfl | rfl | hp
    · simp [escapeChar]
    · simp [escapeChar]
    · simp [escapeChar]
    · simp [escapeChar]
    · rw [escapeChar_of_isPlain hp]
      simpa using hc

theorem lineEnds_escape (s : List Char) : lineEnds (escape s) = escape (lineEnds s) := by
  fun_induction lineEnds s with
  | case1 cs ih =>
    show '\n' :: lineEnds (escape cs) = escape ('\n' :: lineEnds cs)
    rw [escape_cons, ih]
    rfl
  | case2 cs hcs ih =>
    have hhead : (escape cs).head? ≠ some '\n' := by
      refine head?_escape_ne fun h => ?_
      obtain ⟨rest, rfl⟩ := List.head?_eq_some_iff.1 h
      exact hcs rest rfl
    have hreturn : escape ('\r' :: cs) = '\r' :: escape cs := escape_cons _ _
    rw [hreturn, lineEnds_return_cons hhead, ih, escape_cons]
    rfl
  | case3 c cs hreturn hc ih =>
    have hnot : '\r' ∉ escapeChar c := by
      intro hmem
      have h := forall_mem_escapeChar (p := (· != '\r')) (by decide) (fun _ => bne_iff_ne.2 fun h => hc h) _ hmem
      exact absurd h (by decide)
    rw [escape_cons, lineEnds_append_of_not_mem hnot, ih, escape_cons]
  | case4 => rfl

theorem map_spaced_escape (s : List Char) : (escape s).map spaced = escape (s.map spaced) := by
  induction s with
  | nil => rfl
  | cons c s ih =>
    rw [escape_cons, List.map_append, ih, List.map_cons, escape_cons]
    congr 1
    by_cases hblank : isBlank c = true
    · rw [escapeChar_of_isBlank hblank, List.map_singleton, spaced, if_pos hblank]
      rfl
    · have hsame : (escapeChar c).map spaced = (escapeChar c).map id := by
        refine List.map_congr_left fun x hx => ?_
        rw [spaced, isBlank_of_mem_escapeChar (by simpa using hblank) hx]
        rfl
      rw [hsame, List.map_id, spaced, if_neg hblank]

theorem decode_escapeChar (c : Char) (cs : List Char) :
    decode none (escapeChar c ++ cs) = (decode none cs).map (c :: ·) := by
  rcases markup_or_plain c with rfl | rfl | rfl | rfl | hp
  · rfl
  · rfl
  · rfl
  · rfl
  · rw [escapeChar_of_isPlain hp, List.singleton_append, decode, if_neg hp.1]

theorem decode_escape (s : List Char) : decode none (escape s) = some s := by
  induction s with
  | nil => rfl
  | cons c s ih =>
    rw [escape_cons, decode_escapeChar, ih]
    rfl

end Xml.Conforming

end ItemTree
