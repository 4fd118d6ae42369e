import ItemTree.Proofs.Json.Record
import ItemTree.Source.Config
import Mathlib.Data.List.Induction

/-!
# Emit configurations from the members of an object

Each option is taken from the one member of its name, wherever it stands and whatever stands beside it.

* `Draft.ListedIn`: a draft holds what the members read so far list, and a further member keeps it so or is refused
  (`takes_member`, `takes_repeated`);
* `exists_first_repeated`: where an option stands twice, there is a first member to repeat one;
* `config_read_from_members`: what comes of an object, by its members.
-/

namespace ItemTree

namespace EmitConfig

open Json (Reads Takes ReadsMembers)

abbrev Members := List (String × Json)

/-- names of the options -/
def optionNames : List String := ["indent", "trailingNewline"]

theorem mem_optionNames {name : String} : name ∈ optionNames ↔ name = "indent" ∨ name = "trailingNewline" := by
  simp [optionNames]

/-- a member of this name has a value of this type -/
def Typed {α : Type} (name : String) (enc : α → Json) (m : String × Json) : Prop := m.1 = name → ∃ a, m.2 = enc a

/-- members with the name of an option have values of its type; all others have any value -/
def Fits (m : String × Json) : Prop := Typed "indent" .string m ∧ Typed "trailingNewline" .bool m

/-- no option stands twice -/
def Once (ms : Members) : Prop := ∀ name ∈ optionNames, (ms.map Prod.fst).count name ≤ 1

/-- the value that members give this name, or a default if none has it -/
def Listed {α : Type} (a : α) (name : String) (enc : α → Json) (default : α) (ms : Members) : Prop :=
  (∀ b, (name, enc b) ∈ ms → a = b) ∧ (name ∉ ms.map Prod.fst → a = default)

/-- the options that members list, and four spaces and no line feed for what they leave out -/
structure ListedIn (c : EmitConfig) (ms : Members) : Prop where
  indent : Listed c.indent "indent" .string "    " ms
  newline : Listed c.trailingNewline "trailingNewline" .bool false ms

/-! ## repeated options -/

theorem once_nil : Once [] := fun _ _ => Nat.zero_le 1

theorem once_append_singleton {ms : Members} {m : String × Json} :
    Once (ms ++ [m]) ↔ Once ms ∧ (m.1 ∈ optionNames → m.1 ∉ ms.map Prod.fst) := by
  have hcount : ∀ name, ((ms ++ [m]).map Prod.fst).count name =
      (ms.map Prod.fst).count name + if m.1 = name then 1 else 0 := by
    intro name
    rw [List.map_append, List.count_append, List.map_singleton, List.count_singleton]
    simp only [beq_iff_eq]
  unfold Once
  simp only [hcount]
  constructor
  · intro h
    refine ⟨fun name hname => Nat.le_of_add_right_le (h name hname), fun hm hmem => ?_⟩
    have hle := h m.1 hm
    have hpos := List.count_pos_iff.2 hmem
    rw [if_pos rfl] at hle
    omega
  · rintro ⟨h, hnew⟩ name hname
    have hle := h name hname
    split
    · next heq =>
      subst heq
      have := List.count_eq_zero.2 (hnew hname)
      omega
    · omega

/-- the first member to repeat an option -/
theorem exists_first_repeated {ms : Members} (h : ¬ Once ms) :
    ∃ before m after, ms = before ++ m :: after ∧ Once before ∧ m.1 ∈ optionNames ∧ m.1 ∈ before.map Prod.fst := by
  induction ms using List.reverseRecOn with
  | nil => exact absurd once_nil h
  | append_singleton ms m ih =>
    by_cases hms : Once ms
    · have hm : m.1 ∈ optionNames ∧ m.1 ∈ ms.map Prod.fst := by
        by_contra hnew
        exact h (once_append_singleton.2 ⟨hms, fun hm hmem => hnew ⟨hm, hmem⟩⟩)
      exact ⟨ms, m, [], rfl, hms, hm⟩
    · obtain ⟨before, n, after, rfl, hn⟩ := ih hms
      exact ⟨before, n, after ++ [m], by rw [List.append_assoc, List.cons_append], hn⟩

/-! ## drafts -/

/-- an option is set to what members list for it -/
def Holds {α : Type} (o : Option α) (name : String) (enc : α → Json) (ms : Members) : Prop :=
  ∀ a, o = some a ↔ (name, enc a) ∈ ms

section

variable {α : Type} {o : Option α} {name : String} {enc : α → Json} {ms : Members}

theorem Holds.isSome_iff (h : Holds o name enc ms) (hms : ∀ m ∈ ms, Typed name enc m) :
    o.isSome ↔ name ∈ ms.map Prod.fst := by
  rw [Option.isSome_iff_exists, List.mem_map]
  constructor
  · rintro ⟨a, ha⟩
    exact ⟨_, (h a).1 ha, rfl⟩
  · rintro ⟨⟨_, v⟩, hm, rfl⟩
    obtain ⟨a, rfl⟩ := hms _ hm rfl
    exact ⟨a, (h a).2 hm⟩

theorem Holds.listed (h : Holds o name enc ms) (hms : ∀ m ∈ ms, Typed name enc m) (default : α) :
    Listed (o.getD default) name enc default ms := by
  refine ⟨fun a ha => ?_, fun hnone => ?_⟩
  · rw [(h a).2 ha, Option.getD_some]
  · rw [← h.isSome_iff hms, Option.not_isSome_iff_eq_none] at hnone
    rw [hnone, Option.getD_none]

theorem holds_some (hname : name ∉ ms.map Prod.fst) (henc : Function.Injective enc) (a : α) :
    Holds (some a) name enc (ms ++ [(name, enc a)]) := by
  intro b
  have hb : (name, enc b) ∉ ms := fun hmem => hname (List.mem_map_of_mem hmem)
  simp [hb, henc.eq_iff, eq_comm]

theorem Holds.append_of_ne (h : Holds o name enc ms) {other : String} (hne : other ≠ name) (v : Json) :
    Holds o name enc (ms ++ [(other, v)]) := by
  intro a
  simp [h a, hne.symm]

end

namespace Draft

/-- a draft holds what members list -/
structure ListedIn (d : Draft) (ms : Members) : Prop where
  indent : Holds d.indent "indent" .string ms
  newline : Holds d.trailingNewline "trailingNewline" .bool ms

variable {d : Draft} {ms : Members}

theorem listedIn_nil : ListedIn {} [] := by
  constructor <;> simp [Holds]

/-! ## members -/

theorem member_indent (d : Draft) : record.member d "indent" =
    if d.indent.isSome then .error (.refused (.duplicateField "indent"))
    else .ok (do return { d with indent := some (← Json.readString) }) := by
  simp [record, Json.Record.member]

theorem member_newline (d : Draft) : record.member d "trailingNewline" =
    if d.trailingNewline.isSome then .error (.refused (.duplicateField "trailingNewline"))
    else .ok (do return { d with trailingNewline := some (← Json.readBool) }) := by
  simp [record, Json.Record.member]

section

variable (h : d.ListedIn ms) (hms : ∀ m ∈ ms, Fits m) {m : String × Json}

include h hms

/-- a further member adds its option, and any other member nothing -/
theorem ListedIn.takes_member (hm : Fits m) (hnew : m.1 ∈ optionNames → m.1 ∉ ms.map Prod.fst) :
    ∃ d' : Draft, Takes record.member d m.1 m.2 (.ok d') ∧ d'.ListedIn (ms ++ [m]) := by
  obtain ⟨name, v⟩ := m
  by_cases hname : name ∈ optionNames
  · have hunseen := hnew hname
    rcases mem_optionNames.1 hname with rfl | rfl
    · obtain ⟨s, rfl⟩ := hm.1 rfl
      have hunset : ¬ d.indent.isSome := by rwa [h.indent.isSome_iff fun m hm => (hms m hm).1]
      have hread := (Json.reads_readString s).map fun s => { d with indent := some s }
      have hset := holds_some hunseen (fun _ _ => Json.string.inj) s
      refine ⟨_, .of_ok ?_ hread, hset, h.newline.append_of_ne (by decide) _⟩
      rw [member_indent, if_neg hunset]
    · obtain ⟨b, rfl⟩ := hm.2 rfl
      have hunset : ¬ d.trailingNewline.isSome := by rwa [h.newline.isSome_iff fun m hm => (hms m hm).2]
      have hread := (Json.reads_readBool b).map fun b => { d with trailingNewline := some b }
      have hset := holds_some hunseen (fun _ _ => Json.bool.inj) b
      refine ⟨_, .of_ok ?_ hread, h.indent.append_of_ne (by decide) _, hset⟩
      rw [member_newline, if_neg hunset]
  · have hread := (Json.reads_skipValue v).map fun _ => d
    have hne := not_or.1 (mem_optionNames.not.1 hname)
    exact ⟨d, .of_ok (Json.Record.member_of_not_mem (r := record) hname d) hread, h.indent.append_of_ne hne.1 v,
      h.newline.append_of_ne hne.2 v⟩

/-- an option that stands already is refused by its name, before its value is read -/
theorem ListedIn.takes_repeated (hm : m.1 ∈ optionNames) (hmem : m.1 ∈ ms.map Prod.fst) :
    Takes record.member d m.1 m.2 (.error (.refused (.duplicateField m.1))) := by
  obtain ⟨name, v⟩ := m
  unfold Takes
  rcases mem_optionNames.1 hm with rfl | rfl
  · rw [member_indent, if_pos ((h.indent.isSome_iff fun m hm => (hms m hm).1).2 hmem)]
  · rw [member_newline, if_pos ((h.newline.isSome_iff fun m hm => (hms m hm).2).2 hmem)]

end

end Draft

/-! ## objects -/

variable {ms : Members}

/-- members in a row, none of which repeats an option -/
theorem readsMembers_of_once (hms : ∀ m ∈ ms, Fits m) (honce : Once ms) :
    ∃ d : Draft, ReadsMembers id record.member {} ms (.ok d) ∧ d.ListedIn ms := by
  induction ms using List.reverseRecOn with
  | nil => exact ⟨{}, .nil _, Draft.listedIn_nil⟩
  | append_singleton ms m ih =>
    obtain ⟨hms, hm⟩ := List.forall_mem_append.1 hms
    obtain ⟨honce, hnew⟩ := once_append_singleton.1 honce
    obtain ⟨d, hd, hlisted⟩ := ih hms honce
    obtain ⟨d', hd', hlisted'⟩ := hlisted.takes_member hms (hm m List.mem_cons_self) hnew
    refine ⟨d', hd.append (f := fun _ => .ok d') ?_, hlisted'⟩
    rintro _ ⟨⟩
    exact .single hd'

/-- members up to the first that repeats an option -/
theorem readsMembers_of_repeated {m : String × Json} (hms : ∀ m ∈ ms, Fits m) (honce : Once ms)
    (hm : m.1 ∈ optionNames) (hmem : m.1 ∈ ms.map Prod.fst) (after : Members) :
    ReadsMembers id record.member {} (ms ++ m :: after) (.error (.refused (.duplicateField m.1))) := by
  obtain ⟨d, hd, hlisted⟩ := readsMembers_of_once hms honce
  refine hd.append (f := fun _ => .error (.refused (.duplicateField m.1))) ?_
  rintro _ ⟨⟩
  exact .refused after (hlisted.takes_repeated hms hm hmem)

theorem parse_object {result : Except Json.ReadError Draft} (h : ReadsMembers id record.member {} ms result) :
    parse (Json.object ms).text = (result.map ofDraft).mapError .invalidConfig := by
  have hread := h.reads_record (r := record) (fun _ _ => rfl) (Json.nestingLimit - 1)
  rw [parse, (show Reads read _ _ from hread.map ofDraft).readAll]

/-- an object in which no option stands twice -/
theorem parse_of_once (hms : ∀ m ∈ ms, Fits m) (honce : Once ms) :
    ∃ c : EmitConfig, parse (Json.object ms).text = .ok c ∧ c.ListedIn ms := by
  obtain ⟨d, hd, hlisted⟩ := readsMembers_of_once hms honce
  have hindent := hlisted.indent.listed (fun m hm => (hms m hm).1) "    "
  have hnewline := hlisted.newline.listed (fun m hm => (hms m hm).2) false
  exact ⟨ofDraft d, parse_object hd, hindent, hnewline⟩

/-- an object up to the first member that repeats an option -/
theorem parse_of_repeated {m : String × Json} (hms : ∀ m ∈ ms, Fits m) (honce : Once ms) (hm : m.1 ∈ optionNames)
    (hmem : m.1 ∈ ms.map Prod.fst) (after : Members) :
    parse (Json.object (ms ++ m :: after)).text = .error (.invalidConfig (.refused (.duplicateField m.1))) :=
  parse_object (readsMembers_of_repeated hms honce hm hmem after)

theorem message_repeated (name : String) : (TreeError.invalidConfig (.refused (.duplicateField name))).message =
    "Invalid emit configuration: duplicate field `" ++ name ++ "`" := by
  show "Invalid emit configuration: " ++ ("duplicate field " ++ ("`" ++ name ++ "`")) = _
  simp only [← String.append_assoc]
  rfl

theorem parse_toJson (c : EmitConfig) : parse c.toJson.text = .ok c := by
  have hms : ∀ m ∈ [("indent", Json.string c.indent), ("trailingNewline", .bool c.trailingNewline)], Fits m := by
    simp [Fits, Typed]
  have honce : Once [("indent", Json.string c.indent), ("trailingNewline", .bool c.trailingNewline)] := by
    show ∀ name ∈ optionNames, ["indent", "trailingNewline"].count name ≤ 1
    decide
  obtain ⟨c', hparse, hlisted⟩ := parse_of_once hms honce
  have hindent : c'.indent = c.indent := hlisted.indent.1 _ (by simp)
  have hnewline : c'.trailingNewline = c.trailingNewline := hlisted.newline.1 _ (by simp)
  have heq : c' = c := by
    cases c'
    exact congrArg₂ EmitConfig.mk hindent hnewline
  rw [heq] at hparse
  exact hparse

end EmitConfig

open EmitConfig

/-- **A configuration is what the members of its object list.** As long as no option stands twice, each is the value of
its member, or its default if there is none, whatever other members stand before, between or after them. Otherwise the
text is refused by the name of the option that is the first to stand a second time. -/
theorem config_read_from_members (ms : Members) (hms : ∀ m ∈ ms, Fits m) :
    (Once ms → ∃ c : EmitConfig, EmitConfig.parse (Json.object ms).text = .ok c ∧ c.ListedIn ms) ∧
      (¬ Once ms → ∃ before m after, ms = before ++ m :: after ∧ Once before ∧ m.1 ∈ optionNames ∧
        m.1 ∈ before.map Prod.fst ∧
        EmitConfig.parse (Json.object ms).text = .error (.invalidConfig (.refused (.duplicateField m.1))) ∧
        (TreeError.invalidConfig (.refused (.duplicateField m.1))).message =
          "Invalid emit configuration: duplicate field `" ++ m.1 ++ "`") ∧
      ∀ c : EmitConfig, EmitConfig.parse c.toJson.text = .ok c := by
  refine ⟨parse_of_once hms, fun hrepeated => ?_, parse_toJson⟩
  obtain ⟨before, m, after, rfl, honce, hm, hmem⟩ := exists_first_repeated hrepeated
  have hbefore := (List.forall_mem_append.1 hms).1
  exact ⟨before, m, after, rfl, honce, hm, hmem, parse_of_repeated hbefore honce hm hmem after, message_repeated m.1⟩

/-- an option among others, with braces, quotes and escapes to pass over, and the same with an option repeated -/
theorem config_read_from_members_nested :
    let other : String × Json :=
      ("\"indent\n", .object [("indent", .array [.string "]\\\"\x01", .null]), ("", .object [])])
    let ms : Members := [other, ("trailingNewline", .bool true), other]
    (∀ m ∈ ms, Fits m) ∧ EmitConfig.parse (Json.object ms).text = .ok ⟨"    ", true⟩ ∧
      (∀ m ∈ ms ++ ms, Fits m) ∧ EmitConfig.parse (Json.object (ms ++ ms)).text =
        .error (.invalidConfig (.refused (.duplicateField "trailingNewline"))) := by
  intro other ms
  have hms : ∀ m ∈ ms, Fits m := by simp [ms, other, Fits, Typed]
  have hboth : ∀ m ∈ ms ++ ms, Fits m := by simpa using hms
  have honce : Once ms := by
    show ∀ name ∈ optionNames, ["\"indent\n", "trailingNewline", "\"indent\n"].count name ≤ 1
    decide
  have hrepeated : ¬ Once (ms ++ ms) := by
    intro h
    exact absurd (h "trailingNewline" (by decide)) (by simp [ms, other])
  obtain ⟨⟨indent, newline⟩, hparse, hlisted⟩ := (config_read_from_members ms hms).1 honce
  obtain rfl : indent = "    " := hlisted.indent.2 (by simp [ms, other])
  obtain rfl : newline = true := hlisted.newline.1 true (by simp [ms])
  obtain ⟨before, m, after, hsplit, -, hm, hmem, herror, -⟩ :=
    (config_read_from_members (ms ++ ms) hboth).2.1 hrepeated
  have hname : m.1 = "trailingNewline" := by
    refine (mem_optionNames.1 hm).resolve_left fun hindent => ?_
    have hmem : "indent" ∈ (ms ++ ms).map Prod.fst := by
      rw [hsplit, List.map_append]
      exact List.mem_append_left _ (hindent ▸ hmem)
    exact absurd hmem (by simp [ms, other])
  rw [hname] at herror
  exact ⟨hms, hparse, hboth, herror⟩

end ItemTree
