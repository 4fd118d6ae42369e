import ItemTree.Item.Blueprint
import ItemTree.Item.Inspect
import ItemTree.Item.Walk
import ItemTree.Outline
import ItemTree.Source.Emit
import ItemTree.Xml.Export
import ItemTree.Xml.Text

/-!
# Sessions

A session edits items in named registers, one step after the other. Each step names the register it works on. A step
that fails gives its error, and the next one goes on with the registers it left.
-/

namespace ItemTree.Session

/-- items by name; a name stands at most once -/
abbrev Registers := List (String × Item)

namespace Registers

def get? (rs : Registers) (name : String) : Option Item := rs.lookup name

def erase (rs : Registers) (name : String) : Registers := rs.filter fun r => r.1 != name

def set (rs : Registers) (name : String) (i : Item) : Registers := (name, i) :: rs.erase name

/-- puts an item where it is wanted, if anywhere -/
def setOptional (rs : Registers) (name : Option String) (i : Item) : Registers :=
  match name with
  | none => rs
  | some name => rs.set name i

end Registers

/-- where a new entry comes from -/
inductive Source where
  | built (blueprint : Blueprint)
  /-- taken out of a register, which becomes unset -/
  | moved (register : String)

inductive Action where
  | create (blueprint : Blueprint)
  | push (source : Option Source)
  | insert (index : Nat) (source : Source)
  | remove (index : Nat) (target : Option String)
  | take (target : Option String)
  | clear
  | get (index : Nat)
  | list
  | observe (observer : String)
  | setValue (value : Value)
  | setParenthesized (flag : Bool)
  /-- a copy of a file that keeps only its position -/
  | copy (target : String)
  | source (config : Option String)
  | xml
  | kinds
  | count
  | inspect
  | outline

structure Step where
  register : String
  action : Action

inductive Failure where
  | noRegister
  | notContainer
  | notFile
  | tree (cause : TreeError)
  deriving DecidableEq, Repr

inductive Reply where
  | brief (b : Brief)
  | length (n : Nat)
  | removed (entry : Brief) (length : Nat)
  | taken (count length : Nat)
  | cleared (length : Nat) (isEmpty : Bool)
  | entry (b : Option Brief)
  | listing (length : Nat) (isEmpty : Bool) (texts : List String)
  | observing
  | value (v : Value) (notices : List Notice)
  | parenthesized (flag : Bool) (notices : List Notice)
  | inspection (i : Inspection)
  | text (s : String)
  | kinds (ks : List Kind)
  | count (n : Nat)
  | failure (f : Failure)

/-- registers after a step, and its answer -/
abbrev Outcome := Registers × Reply

def fail (rs : Registers) (f : Failure) : Outcome := (rs, .failure f)

/-- goes on with the item of a register -/
def withItem (rs : Registers) (name : String) (f : Item → Outcome) : Outcome :=
  match rs.get? name with
  | none => fail rs .noRegister
  | some i => f i

/-- goes on with the item of a register and its container -/
def withContainer (rs : Registers) (name : String) (f : Item → Container → Outcome) : Outcome :=
  withItem rs name fun i =>
    match i.container? with
    | none => fail rs .notContainer
    | some c => f i c

/-- the item of a source, and the registers without it -/
def Source.fetch (rs : Registers) : Source → Except Failure (Item × Registers)
  | built b => b.build.mapError .tree |>.map fun i => (i, rs)
  | moved name =>
    match rs.get? name with
    | none => .error .noRegister
    | some i => .ok (i, rs.erase name)

/-- the target has to be there before the source is fetched and still after it -/
def pushStep (rs : Registers) (r : String) (source : Option Source) : Outcome :=
  withContainer rs r fun i c =>
    match source with
    | none =>
      let c := c.pushOptional none
      (rs.set r (i.withContainer c), .length c.length)
    | some source =>
      match source.fetch rs with
      | .error f => fail rs f
      | .ok (entry, rs) =>
        withContainer rs r fun i c =>
          let c := c.pushOptional (some entry)
          (rs.set r (i.withContainer c), .length c.length)

@[inherit_doc pushStep]
def insertStep (rs : Registers) (r : String) (index : Nat) (source : Source) : Outcome :=
  withContainer rs r fun _ _ =>
    match source.fetch rs with
    | .error f => fail rs f
    | .ok (entry, rs) =>
      withContainer rs r fun i c =>
        match c.insert index entry with
        | .error e => fail rs (.tree e)
        | .ok c => (rs.set r (i.withContainer c), .length c.length)

def removeStep (rs : Registers) (r : String) (index : Nat) (target : Option String) : Outcome :=
  withContainer rs r fun i c =>
    match c.remove index with
    | .error e => fail rs (.tree e)
    | .ok (entry, c) => ((rs.set r (i.withContainer c)).setOptional target entry, .removed entry.brief c.length)

/-- the entries go into a new block -/
def takeStep (rs : Registers) (r : String) (target : Option String) : Outcome :=
  withContainer rs r fun i c =>
    let (entries, c) := c.takeContents
    let block : Container := { contents := entries }
    ((rs.set r (i.withContainer c)).setOptional target block.toItem, .taken entries.length c.length)

/-- the configuration is read before the register -/
def sourceStep (rs : Registers) (r : String) (config : Option String) : Outcome :=
  let config : Except TreeError EmitConfig := match config with
    | none => .ok {}
    | some text => EmitConfig.parse text
  match config with
  | .error e => fail rs (.tree e)
  | .ok config => withItem rs r fun i => (rs, .text (i.toSource config))

def run (rs : Registers) (s : Step) : Outcome :=
  let r := s.register
  match s.action with
  | .create b =>
    match b.build with
    | .error e => fail rs (.tree e)
    | .ok i => (rs.set r i, .brief i.brief)
  | .push source => pushStep rs r source
  | .insert index source => insertStep rs r index source
  | .remove index target => removeStep rs r index target
  | .take target => takeStep rs r target
  | .clear => withContainer rs r fun i c =>
    let c := c.clear
    (rs.set r (i.withContainer c), .cleared c.length c.isEmpty)
  | .get index => withContainer rs r fun _ c => (rs, .entry ((c.get? index).map Item.brief))
  | .list => withContainer rs r fun _ c => (rs, .listing c.length c.isEmpty (c.contents.map Item.text))
  | .observe observer => withItem rs r fun i => (rs.set r (i.observe observer), .observing)
  | .setValue v => withItem rs r fun i =>
    let (i, notices) := i.setValue v
    (rs.set r i, .value i.header.value notices)
  | .setParenthesized b => withItem rs r fun i =>
    let (i, notices) := i.setParenthesized b
    (rs.set r i, .parenthesized i.header.parenthesized notices)
  | .copy target => withItem rs r fun i =>
    match i.blankCopy? with
    | none => fail rs .notFile
    | some copy => (rs.set target copy, .inspection copy.inspect)
  | .source config => sourceStep rs r config
  | .xml => withItem rs r fun i => (rs, .text i.toXml.text)
  | .kinds => withItem rs r fun i => (rs, .kinds i.kinds)
  | .count => withItem rs r fun i => (rs, .count i.count)
  | .inspect => withItem rs r fun i => (rs, .inspection i.inspect)
  | .outline => withItem rs r fun i => (rs, .text i.outline.compact)

/-- answers of a whole session, from registers on -/
def replies (rs : Registers) : List Step → List Reply
  | [] => []
  | s :: steps =>
    let (rs, reply) := run rs s
    reply :: replies rs steps

end ItemTree.Session
