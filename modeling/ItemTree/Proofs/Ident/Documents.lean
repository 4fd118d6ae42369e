import ItemTree.Proofs.Ident.Checksum
import ItemTree.Proofs.Ident.Sequence
import Mathlib.Data.List.Basic

/-!
# Ids of different documents

Ids come from any number of generators, which are made for documents, copied, and asked in any order. An id shows the
seed and the ordinal it was made from, and nothing else about its origin:

* `toDigits_inj`: digits of a number determine it, up to base sixteen;
* `idText_inj`: seed and ordinal are read off an id, since there is no hyphen in either;
* `Issue`, `Request`: ids with their origin, and what can be asked of generators;
* `genuine_requests`: where the ids of a run come from.
-/

namespace ItemTree

/-! ## digits -/

theorem digitChar_inj {m n : Nat} (hm : m < 16) (hn : n < 16) : m.digitChar = n.digitChar ↔ m = n := by
  have hall : ∀ m n : Fin 16, m.val.digitChar = n.val.digitChar → m = n := by decide
  refine ⟨fun h => ?_, fun h => by rw [h]⟩
  exact Fin.mk.inj (hall ⟨m, hm⟩ ⟨n, hn⟩ h)

theorem digitChar_ne_hyphen {n : Nat} (hn : n < 16) : n.digitChar ≠ '-' := by
  have hall : ∀ n : Fin 16, n.val.digitChar ≠ '-' := by decide
  exact hall ⟨n, hn⟩

section

variable {b : Nat} (hb : 1 < b) (hle : b ≤ 16)

include hb hle

theorem toDigits_inj {m n : Nat} : Nat.toDigits b m = Nat.toDigits b n ↔ m = n := by
  refine ⟨fun h => ?_, fun h => by rw [h]⟩
  induction m using Nat.strongRecOn generalizing n with
  | ind m ih =>
    rw [Nat.toDigits_eq_if hb (n := m), Nat.toDigits_eq_if hb (n := n)] at h
    have hmod : ∀ k, k % b < 16 := fun k => Nat.lt_of_lt_of_le (Nat.mod_lt k (by omega)) hle
    split at h
    · split at h
      · exact (digitChar_inj (by omega) (by omega)).1 (List.cons.inj h).1
      · -- one digit is never more than one
        exact absurd (congrArg List.length h) (by simp)
    · split at h
      · exact absurd (congrArg List.length h) (by simp)
      · obtain ⟨hinit, hlast⟩ := List.append_inj' h rfl
        have hdiv : m / b = n / b := ih _ (Nat.div_lt_self (by omega) hb) hinit
        have hrem : m % b = n % b := (digitChar_inj (hmod m) (hmod n)).1 (List.cons.inj hlast).1
        rw [← Nat.div_add_mod m b, ← Nat.div_add_mod n b, hdiv, hrem]

theorem hyphen_not_mem_toDigits (n : Nat) : '-' ∉ Nat.toDigits b n := by
  induction n using Nat.strongRecOn with
  | ind n ih =>
    have hmod : n % b < 16 := Nat.lt_of_lt_of_le (Nat.mod_lt n (by omega)) hle
    rw [Nat.toDigits_eq_if hb]
    intro h
    split at h
    · exact digitChar_ne_hyphen (by omega) (List.mem_singleton.1 h).symm
    · rcases List.mem_append.1 h with h | h
      · exact ih (n / b) (Nat.div_lt_self (by omega) hb) h
      · exact digitChar_ne_hyphen hmod (List.mem_singleton.1 h).symm

end

/-! ## seeds and ids -/

/-- the bytes of an address -/
def documentBytes (fileName : String) : List UInt8 := (documentAddress fileName).toUTF8.data.toList

theorem documentId_inj {f g : String} :
    documentId f = documentId g ↔ Checksum.crc32 (documentBytes f) = Checksum.crc32 (documentBytes g) := by
  have hid : ∀ name, documentId name =
      String.ofList (Nat.toDigits 16 (Checksum.crc32 (documentBytes name)).toNat) := fun _ => rfl
  rw [hid, hid, String.ofList_inj, toDigits_inj (by decide) (by decide), BitVec.toNat_inj]

theorem hyphen_not_mem_documentId (fileName : String) : '-' ∉ (documentId fileName).toList := by
  unfold documentId
  rw [String.toList_ofList]
  exact hyphen_not_mem_toDigits (by decide) (by decide) _

namespace Generator

theorem toList_idText (seed : String) (n : Nat) :
    (idText seed n).toList = seed.toList ++ '-' :: Nat.toDigits 10 n := by
  simp [idText]

/-- seed and ordinal are read off an id -/
theorem idText_inj {s t : String} (hs : '-' ∉ s.toList) {m n : Nat} : idText s m = idText t n ↔ s = t ∧ m = n := by
  have hm := hyphen_not_mem_toDigits (b := 10) (by decide) (by decide) m
  rw [← String.toList_inj, toList_idText, toList_idText, List.append_cons_inj_of_notMem hs hm, String.toList_inj,
    toDigits_inj (by decide) (by decide)]
  simp

/-! ## generators asked in any order -/

/-- a generator with its past: the document it was made for, and the number of ids handed out since -/
structure Tracked where
  generator : Generator
  document : String
  issued : Nat := 0

/-- an id with its origin; the ordinal says how many ids its generator had handed out with this one -/
structure Issue where
  document : String
  ordinal : Nat
  id : String

/-- what can be asked of generators, which are known by their places in a list -/
inductive Request where
  /-- one more generator, for a document -/
  | create (document : String)
  /-- one more generator, in the state of another -/
  | copy (k : Nat)
  /-- the next id of a generator -/
  | next (k : Nat)

def Tracked.next (t : Tracked) : Issue × Tracked :=
  (⟨t.document, t.issued + 1, t.generator.next.1⟩,
    { t with generator := t.generator.next.2, issued := t.issued + 1 })

/-- ids handed out, and the generators afterwards; nothing happens when the generator does not exist -/
def request (ts : List Tracked) : Request → List Issue × List Tracked
  | .create document => ([], ts ++ [{ generator := .ofDocument document, document := document }])
  | .copy k => ([], ts ++ ts[k]?.toList)
  | .next k =>
    match ts[k]? with
    | none => ([], ts)
    | some t => ([t.next.1], ts.set k t.next.2)

/-- requests one after the other -/
def requests (ts : List Tracked) : List Request → List Issue × List Tracked
  | [] => ([], ts)
  | r :: rs => ((request ts r).1 ++ (requests (request ts r).2 rs).1, (requests (request ts r).2 rs).2)

/-- all ids that requests lead to, when there are no generators at first -/
def issues (rs : List Request) : List Issue := (requests [] rs).1

/-- a generator in the state that its past has led to -/
def Tracked.Genuine (t : Tracked) : Prop := t.generator = (ofDocument t.document).after t.issued

/-- an id that the generator of its document gives at its ordinal -/
def Issue.Genuine (i : Issue) : Prop :=
  ∃ n, i.ordinal = n + 1 ∧ i.id = ((ofDocument i.document).after n).next.1

theorem Tracked.Genuine.next {t : Tracked} (h : t.Genuine) : t.next.1.Genuine ∧ t.next.2.Genuine := by
  unfold Tracked.Genuine at h
  refine ⟨⟨t.issued, rfl, ?_⟩, ?_⟩
  · rw [Tracked.next, h]
  · show t.generator.next.2 = (ofDocument t.document).after (t.issued + 1)
    rw [h, after_succ]

/-- one step of a run -/
theorem genuine_request {ts : List Tracked} (h : ∀ t ∈ ts, t.Genuine) (r : Request) :
    (∀ i ∈ (request ts r).1, i.Genuine) ∧ ∀ t ∈ (request ts r).2, t.Genuine := by
  cases r with
  | create document =>
    refine ⟨by simp [request], fun t ht => ?_⟩
    rcases List.mem_append.1 ht with ht | ht
    · exact h t ht
    · obtain rfl := List.mem_singleton.1 ht
      rfl
  | copy k =>
    refine ⟨by simp [request], fun t ht => ?_⟩
    rcases List.mem_append.1 ht with ht | ht
    · exact h t ht
    · exact h t (List.mem_of_getElem? (Option.mem_toList.1 ht))
  | next k =>
    cases hk : ts[k]? with
    | none =>
      have hr : request ts (.next k) = ([], ts) := by simp [request, hk]
      rw [hr]
      exact ⟨by simp, h⟩
    | some t =>
      have hr : request ts (.next k) = ([t.next.1], ts.set k t.next.2) := by simp [request, hk]
      have ht := (h t (List.mem_of_getElem? hk)).next
      rw [hr]
      refine ⟨by simpa using ht.1, fun u hu => ?_⟩
      rcases List.mem_or_eq_of_mem_set hu with hu | rfl
      · exact h u hu
      · exact ht.2

theorem genuine_requests {ts : List Tracked} (h : ∀ t ∈ ts, t.Genuine) (rs : List Request) :
    ∀ i ∈ (requests ts rs).1, i.Genuine := by
  induction rs generalizing ts with
  | nil => exact fun i hi => nomatch hi
  | cons r rs ih =>
    obtain ⟨hissues, hgenerators⟩ := genuine_request h r
    intro i hi
    rcases List.mem_append.1 hi with hi | hi
    · exact hissues i hi
    · exact ih hgenerators i hi

theorem genuine_issues (rs : List Request) : ∀ i ∈ issues rs, i.Genuine := by
  intro i hi
  exact genuine_requests (by simp) rs i hi

namespace Issue.Genuine

variable {i : Issue} (h : i.Genuine)

include h

/-- the seed is the id of the document, however many ids there were -/
theorem exists_id_eq : ∃ n, i.id = idText (documentId i.document) n := by
  obtain ⟨n, -, hid⟩ := h
  exact ⟨_, hid.trans (next_after _ n)⟩

theorem id_eq (hlt : i.ordinal < 2 ^ 32) : i.id = idText (documentId i.document) i.ordinal := by
  obtain ⟨n, hn, hid⟩ := h
  have hzero : (ofDocument i.document).count.toNat = 0 := rfl
  rw [hid, next_after, toNat_count_after _ (by omega), hzero, Nat.zero_add, hn]
  rfl

end Issue.Genuine

end Generator

open Generator (Request issues)

/-- **Ids tell documents apart.** In any run over any generators, as long as none of them hands out `2 ^ 32` ids, two
ids are equal exactly if the ids of their documents and their ordinals are. The ids of two documents differ if the
bytes of their addresses differ in a window of at most four bytes; then no id of one document is ever one of the
other. -/
theorem ids_tell_documents_apart :
    (∀ rs : List Request, ∀ i ∈ issues rs, ∀ j ∈ issues rs, i.ordinal < 2 ^ 32 → j.ordinal < 2 ^ 32 →
      (i.id = j.id ↔ documentId i.document = documentId j.document ∧ i.ordinal = j.ordinal)) ∧
    ∀ (f g : String) (p x y q : List UInt8), documentBytes f = p ++ x ++ q → documentBytes g = p ++ y ++ q →
      x ≠ y → x.length = y.length → x.length ≤ 4 →
      documentId f ≠ documentId g ∧
        ∀ rs : List Request, ∀ i ∈ issues rs, ∀ j ∈ issues rs, i.document = f → j.document = g → i.id ≠ j.id := by
  refine ⟨fun rs i hi j hj hilt hjlt => ?_, fun f g p x y q hf hg hne hlen hle => ?_⟩
  · rw [(Generator.genuine_issues rs i hi).id_eq hilt, (Generator.genuine_issues rs j hj).id_eq hjlt]
    exact Generator.idText_inj (hyphen_not_mem_documentId _)
  · have hids : documentId f ≠ documentId g := by
      rw [Ne, documentId_inj, hf, hg]
      exact Checksum.crc32_ne hne hlen hle p q
    refine ⟨hids, ?_⟩
    rintro rs i hi j hj rfl rfl h
    obtain ⟨m, hm⟩ := (Generator.genuine_issues rs i hi).exists_id_eq
    obtain ⟨n, hn⟩ := (Generator.genuine_issues rs j hj).exists_id_eq
    rw [hm, hn] at h
    exact hids ((Generator.idText_inj (hyphen_not_mem_documentId _)).1 h).1

/-- two documents whose names differ in four bytes, and a copy of a generator that gives the same id again -/
theorem ids_tell_documents_apart_copy :
    let rs : List Request := [.create "main.qml", .create "test.qml", .next 0, .copy 0, .next 0, .next 2, .next 1]
    (issues rs).map (fun i => (i.document, i.ordinal)) =
        [("main.qml", 1), ("main.qml", 2), ("main.qml", 2), ("test.qml", 1)] ∧
      (∀ i j, (issues rs)[1]? = some i → (issues rs)[2]? = some j → i.id = j.id) ∧
      documentId "main.qml" ≠ documentId "test.qml" ∧
      ∀ i j, (issues rs)[0]? = some i → (issues rs)[3]? = some j → i.id ≠ j.id := by
  intro rs
  obtain ⟨hsame, hapart⟩ := ids_tell_documents_apart
  have hmain : documentBytes "main.qml" =
      [113, 109, 108, 58, 47, 47] ++ [109, 97, 105, 110] ++ [46, 113, 109, 108] := by decide +kernel
  have htest : documentBytes "test.qml" =
      [113, 109, 108, 58, 47, 47] ++ [116, 101, 115, 116] ++ [46, 113, 109, 108] := by decide +kernel
  obtain ⟨hids, hnone⟩ := hapart _ _ _ _ _ _ hmain htest (by decide) rfl (by decide)
  refine ⟨rfl, fun i j hi hj => ?_, hids, fun i j hi hj => ?_⟩
  · have hboth := hsame rs i (List.mem_of_getElem? hi) j (List.mem_of_getElem? hj)
    cases hi
    cases hj
    exact (hboth (by decide) (by decide)).2 ⟨rfl, rfl⟩
  · have hboth := hnone rs i (List.mem_of_getElem? hi) j (List.mem_of_getElem? hj)
    cases hi
    cases hj
    exact hboth rfl rfl

end ItemTree
