import Dbgp.Command
import Dbgp.Proofs.Numeral
import Mathlib.Data.List.Forall2

/-!
# Trees of properties

A property is read from its element and from all elements below it that are properties too. What an
element says by itself is its local reading: `Property.Tells` relates an element to the fields of a
property, and `Element.LocallyReadable` says when there is such a property. Neither looks at
other properties.

Main statements: reading succeeds exactly if every element that it comes to (`Element.Reaches`) is
locally readable (`Property.exists_ofElement_iff`), and the result then mirrors the elements, node by node
(`Property.ofElement_eq_ok_iff_mirrors`). A list of properties keeps what can be read and drops the rest
(`Property.mirrors_allOfResponse`).
-/

namespace Dbgp

namespace Xml.Element

/-! ## What an element says by itself -/

/-- The text of an element stands for octets, by the `encoding` that the element names. -/
inductive Holds (e : Element) : List UInt8 → Prop
  | plain : e.attr? "encoding" = none ∨ e.attr? "encoding" = some "none" →
      Holds e (Text.Utf8.encode e.text)
  | base64 {bytes : List UInt8} : e.attr? "encoding" = some "base64" →
      Text.Base64.decode e.text = .ok bytes → Holds e bytes

/-- The text of an element can be decoded: it `Holds` something. -/
def Decodes (e : Element) : Prop :=
  ∃ bytes, e.Holds bytes

/-- An attribute is a number of 32 bits, with white space around it, if it is there; `word32?` reads
it then. -/
def Counts (e : Element) (name : String) : Option UInt32 → Prop
  | none => e.attr? name = none
  | some w => ∃ raw, e.attr? name = some raw ∧ Text.Numeral.Padded Text.isBlank raw.toList w.toNat

/-- Text that is white space only, by `Text.isBlank`. -/
def IsBlank (e : Element) : Prop :=
  ∀ c ∈ e.text.toList, Text.isBlank c = true

/-- An element that `Property.ofElement` can read as far as it is concerned itself: the children that
hold its name, full name and value can be decoded, and so can its own text if it is the value; its
numbers are numbers of 32 bits. -/
structure LocallyReadable (e : Element) : Prop where
  parts : ∀ part ∈ ["name", "fullname", "value"], ∀ c, e.child? part = some c → c.Decodes
  text : e.child? "value" = none → ¬e.IsBlank → e.Decodes
  numbers : ∀ name ∈ ["numchildren", "page", "pagesize"], ∀ raw, e.attr? name = some raw →
    ∃ w : UInt32, Text.Numeral.Padded Text.isBlank raw.toList w.toNat

/-- The elements that `Property.ofElement` comes to when it reads an element. -/
inductive Reaches : Element → Element → Prop
  | self (e : Element) : Reaches e e
  | down {e c d : Element} : c ∈ e.childrenNamed "property" → Reaches c d → Reaches e d

/-- `Element.content` gives what an element `Holds`, and nothing else. -/
theorem content_eq_ok_iff {e : Element} {bytes : List UInt8} : e.content = .ok bytes ↔ e.Holds bytes := by
  constructor
  · intro h
    unfold content at h
    split at h
    · next hencoding =>
      cases h
      exact .plain (.inl hencoding)
    · next encoding hencoding =>
      split at h
      · next hbase64 =>
        subst hbase64
        split at h
        · next hdecode =>
          cases h
          exact .base64 hencoding hdecode
        · cases h
      · split at h
        · next hnone =>
          subst hnone
          cases h
          exact .plain (.inr hencoding)
        · cases h
  · rintro (hencoding | ⟨hencoding, hdecode⟩)
    · rcases hencoding with hencoding | hencoding
      · rw [content, hencoding]
      · rw [content, hencoding]
        rfl
    · rw [content, hencoding]
      simp only [if_true, hdecode]

/-- `Element.word32?` gives what an attribute `Counts`, and nothing else. -/
theorem word32?_eq_ok_iff {e : Element} {name : String} {n : Option UInt32} :
    e.word32? name = .ok n ↔ e.Counts name n := by
  have hread : ∀ {raw : String} {w : UInt32},
      Text.Numeral.word32? (Text.trimChars Text.isBlank raw.toList) = some w ↔
        Text.Numeral.Padded Text.isBlank raw.toList w.toNat := by
    intro raw w
    rw [Text.Numeral.word32?_eq_some_iff, Text.Numeral.nat?_trimChars_eq_some_iff (by decide)]
    exact fun c hc => Bool.eq_false_iff.mpr (Text.not_blank_of_isDigit hc).1
  unfold word32? parsed?
  cases hattr : e.attr? name with
  | none => cases n <;> simp [Counts, hattr]
  | some raw =>
    cases hword : Text.Numeral.word32? (Text.trimChars Text.isBlank raw.toList) with
    | none =>
      cases n with
      | none => simp [Counts, hattr, hword]
      | some w => simp [Counts, hattr, ← hread, hword]
    | some w =>
      cases n with
      | none => simp [Counts, hattr, hword]
      | some v => simp [Counts, hattr, ← hread, hword]

/-- `Text.trim` leaves nothing of a text exactly if it is blank. -/
theorem trim_eq_iff {e : Element} : Text.trim e.text = "" ↔ e.IsBlank := by
  rw [Text.trim, IsBlank, ← Text.trimChars_eq_nil_iff, ← String.toList_inj, String.toList_ofList]
  rfl

/-- What holds of an `Element` if it holds of its children holds of all elements. -/
theorem induction {motive : Element → Prop}
    (h : ∀ e : Element, (∀ c ∈ e.children, motive c) → motive e) : ∀ e, motive e
  | ⟨name, attributes, children, text⟩ => h _ fun c hc => by
    have : sizeOf c < sizeOf children := List.sizeOf_lt_of_mem hc
    exact induction h c
termination_by e => sizeOf e

end Xml.Element

open Xml (Element)

/-- A computation in two steps that comes to a result: when `>>=` is `ok`. -/
theorem bind_eq_ok_iff {x : Except ε α} {f : α → Except ε β} {b : β} :
    x >>= f = .ok b ↔ ∃ a, x = .ok a ∧ f a = .ok b := by
  cases x with
  | error fault => simp [bind, Except.bind]
  | ok a => simp [bind, Except.bind]

/-- A computation whose result is changed: when `<$>` is `ok`. -/
theorem map_eq_ok_iff {x : Except ε α} {f : α → β} {b : β} :
    f <$> x = .ok b ↔ ∃ a, x = .ok a ∧ f a = b := by
  cases x with
  | error fault => simp [Functor.map, Except.map]
  | ok a => simp [Functor.map, Except.map]

/-- A computation that comes to a result at all, by `toOption`. -/
theorem isSome_toOption_iff {x : Except ε α} : x.toOption.isSome = true ↔ ∃ a, x = .ok a := by
  cases x with
  | error fault => simp [Except.toOption]
  | ok a => simp [Except.toOption]

/-- Of a list, what `read` can read is kept in its order. -/
theorem forall₂_filterMap {read : α → Except ε β} {R : α → β → Prop} {P : α → Prop} [DecidablePred P]
    (hread : ∀ a b, read a = .ok b → R a b) (hP : ∀ a, (∃ b, read a = .ok b) ↔ P a) (l : List α) :
    List.Forall₂ R (l.filter P) (l.filterMap fun a => (read a).toOption) := by
  induction l with
  | nil => exact .nil
  | cons a l ih =>
    cases ha : read a with
    | error fault =>
      have hnot : ¬P a := by
        rw [← hP, ha]
        simp
      rw [List.filter_cons_of_neg (by simpa using hnot), List.filterMap_cons_none (by rw [ha]; rfl)]
      exact ih
    | ok b =>
      have hall := (hP a).mp ⟨b, ha⟩
      rw [List.filter_cons_of_pos (by simpa using hall), List.filterMap_cons_some (by rw [ha]; rfl)]
      exact .cons (hread a b ha) ih

namespace Property

/-! ## Local readings -/

/-- The text of an `Element` as it is shown. -/
def Says (e : Element) (s : String) : Prop :=
  ∃ bytes, e.Holds bytes ∧ Text.Utf8.lossy bytes = s

/-- A part of a property: the text of a child element for it, and otherwise what is said `instead`. -/
def Gives (e : Element) (part : String) (instead : Option String → Prop) (o : Option String) : Prop :=
  match e.child? part with
  | some c => ∃ s, Says c s ∧ o = some s
  | none => instead o

/-- The value in the text of the property itself, which is `none` if it is blank. -/
def OwnValue (e : Element) (o : Option String) : Prop :=
  e.IsBlank ∧ o = none ∨ ¬e.IsBlank ∧ ∃ s, Says e s ∧ o = some s

/-- The fields of a `Property` are those that its element gives, whatever the elements below it
are. -/
structure Tells (e : Element) (p : Property) : Prop where
  name : Gives e "name" (· = some ((e.attr? "name").getD "")) (some p.name)
  fullname : Gives e "fullname" (· = e.attr? "fullname") p.fullname
  value : Gives e "value" (OwnValue e) p.value
  numChildren : e.Counts "numchildren" p.numChildren
  page : e.Counts "page" p.page
  pageSize : e.Counts "pagesize" p.pageSize
  kind : p.kind = e.attr? "type"
  classname : p.classname = e.attr? "classname"
  constant : p.constant = e.flag "constant"
  hasChildren : p.hasChildren = (e.flag "children" || !p.children.isEmpty)
  key : p.key = e.attr? "key"
  address : p.address = e.attr? "address"
  encoding : p.encoding = e.attr? "encoding"

/-- A property has the shape of its element and of the properties below it, in their order, and each
node `Tells` what its element gives. -/
inductive Mirrors : Element → Property → Prop
  | node {e : Element} {p : Property} : Tells e p →
      List.Forall₂ Mirrors (e.childrenNamed "property") p.children → Mirrors e p

/-- A `Property` and all properties below it. -/
inductive Node : Property → Property → Prop
  | self (p : Property) : Node p p
  | down {p c q : Property} : c ∈ p.children → Node c q → Node p q

/-- What holds of a `Property` if it holds of its children holds of all properties. -/
theorem induction {motive : Property → Prop}
    (h : ∀ p : Property, (∀ c ∈ p.children, motive c) → motive p) : ∀ p, motive p
  | ⟨_, _, _, _, _, _, _, _, _, _, _, _, _, children⟩ => h _ fun c hc => by
    have : sizeOf c < sizeOf children := List.sizeOf_lt_of_mem hc
    exact induction h c
termination_by p => sizeOf p

/-- `decodedText` gives what an element `Says`, and nothing else. -/
theorem decodedText_eq_ok_iff {e : Element} {s : String} : decodedText e = .ok s ↔ Says e s := by
  rw [decodedText, map_eq_ok_iff, Says]
  simp only [Element.content_eq_ok_iff]

/-- `readName` takes the child element `name`, or else the attribute. -/
theorem readName_eq_ok_iff {e : Element} {s : String} :
    readName e = .ok s ↔ Gives e "name" (· = some ((e.attr? "name").getD "")) (some s) := by
  unfold readName Gives
  cases e.child? "name" with
  | some c => simp [decodedText_eq_ok_iff]
  | none => simp [eq_comm]

/-- `readFullname` takes the child element `fullname`, or else the attribute. -/
theorem readFullname_eq_ok_iff {e : Element} {o : Option String} :
    readFullname e = .ok o ↔ Gives e "fullname" (· = e.attr? "fullname") o := by
  unfold readFullname Gives
  cases e.child? "fullname" with
  | some c => simp only [map_eq_ok_iff, decodedText_eq_ok_iff, eq_comm (b := o)]
  | none => simp [eq_comm]

/-- `readValue` takes the child element `value`, or else the text of the element itself. -/
theorem readValue_eq_ok_iff {e : Element} {o : Option String} :
    readValue e = .ok o ↔ Gives e "value" (OwnValue e) o := by
  unfold readValue Gives OwnValue
  cases e.child? "value" with
  | some c => simp only [map_eq_ok_iff, decodedText_eq_ok_iff, eq_comm (b := o)]
  | none =>
    by_cases hblank : e.IsBlank
    · simp only [if_pos (Element.trim_eq_iff.mpr hblank)]
      simp [hblank, eq_comm]
    · simp only [if_neg (mt Element.trim_eq_iff.mp hblank), map_eq_ok_iff, decodedText_eq_ok_iff]
      simp [hblank, eq_comm]

/-! ## Reading -/

/-- `ofElements` reads elements as far as they are properties, and all of these or none. -/
theorem ofElements_eq_ok_iff {es : List Element} {ps : List Property} : ofElements es = .ok ps ↔
    List.Forall₂ (fun c p => ofElement c = .ok p) (es.filter fun c => c.name = "property") ps := by
  induction es generalizing ps with
  | nil =>
    rw [ofElements, List.filter_nil, List.forall₂_nil_left_iff]
    simp [eq_comm]
  | cons c es ih =>
    obtain ⟨tag, attributes, elements, text⟩ := c
    unfold ofElements
    split
    · next htag =>
      rw [bind_eq_ok_iff, List.filter_cons_of_pos (by simpa using htag), List.forall₂_cons_left_iff]
      constructor
      · rintro ⟨p, hp, h⟩
        obtain ⟨qs, hqs, h⟩ := bind_eq_ok_iff.mp h
        cases h
        exact ⟨p, qs, hp, ih.mp hqs, rfl⟩
      · rintro ⟨p, qs, hp, hqs, rfl⟩
        exact ⟨p, hp, bind_eq_ok_iff.mpr ⟨qs, ih.mpr hqs, rfl⟩⟩
    · next htag =>
      rw [List.filter_cons_of_neg (by simpa using htag)]
      exact ih

/-- One step of `ofElement`: the element itself, and the properties right below it. -/
theorem ofElement_eq_ok_iff {e : Element} {p : Property} : ofElement e = .ok p ↔
    Tells e p ∧ List.Forall₂ (fun c p => ofElement c = .ok p) (e.childrenNamed "property") p.children := by
  obtain ⟨tag, attributes, elements, text⟩ := e
  rw [ofElement]
  simp only [bind_eq_ok_iff, readName_eq_ok_iff, readFullname_eq_ok_iff, readValue_eq_ok_iff,
    ofElements_eq_ok_iff, Element.word32?_eq_ok_iff]
  constructor
  · rintro ⟨name, hname, fullname, hfullname, children, hchildren, value, hvalue, numChildren,
      hnumChildren, page, hpage, pageSize, hpageSize, h⟩
    cases h
    exact ⟨⟨hname, hfullname, hvalue, hnumChildren, hpage, hpageSize, rfl, rfl, rfl, rfl, rfl, rfl,
      rfl⟩, hchildren⟩
  · rintro ⟨⟨hname, hfullname, hvalue, hnumChildren, hpage, hpageSize, hkind, hclassname, hconstant,
      hhasChildren, hkey, haddress, hencoding⟩, hchildren⟩
    refine ⟨p.name, hname, p.fullname, hfullname, p.children, hchildren, p.value, hvalue,
      p.numChildren, hnumChildren, p.page, hpage, p.pageSize, hpageSize, ?_⟩
    obtain ⟨⟩ := p
    simp only at hkind hclassname hconstant hhasChildren hkey haddress hencoding
    rw [hkind, hclassname, hconstant, hhasChildren, hkey, haddress, hencoding]
    rfl

/-- One step of `Mirrors`, as `ofElement_eq_ok_iff` is one of reading. -/
theorem mirrors_iff {e : Element} {p : Property} : Mirrors e p ↔
    Tells e p ∧ List.Forall₂ Mirrors (e.childrenNamed "property") p.children := by
  constructor
  · rintro ⟨htells, hchildren⟩
    exact ⟨htells, hchildren⟩
  · rintro ⟨htells, hchildren⟩
    exact .node htells hchildren

/-- `List.Forall₂` of two relations that are the same on the first list. -/
theorem forall₂_iff_of_mem {R S : α → β → Prop} {l : List α} {l' : List β}
    (h : ∀ a ∈ l, ∀ b, R a b ↔ S a b) : List.Forall₂ R l l' ↔ List.Forall₂ S l l' := by
  induction l generalizing l' with
  | nil => rw [List.forall₂_nil_left_iff, List.forall₂_nil_left_iff]
  | cons a l ih =>
    rw [List.forall_mem_cons] at h
    simp only [List.forall₂_cons_left_iff, h.1, ih h.2]

/-- Items that are each related to something make a list that is, by `List.Forall₂`. -/
theorem exists_forall₂_iff {R : α → β → Prop} {l : List α} :
    (∃ l', List.Forall₂ R l l') ↔ ∀ a ∈ l, ∃ b, R a b := by
  induction l with
  | nil => simp
  | cons a l ih =>
    rw [List.forall_mem_cons, ← ih]
    constructor
    · rintro ⟨l', h⟩
      cases h with
      | cons hab hl => exact ⟨⟨_, hab⟩, _, hl⟩
    · rintro ⟨⟨b, hab⟩, l', hl⟩
      exact ⟨b :: l', .cons hab hl⟩

/-- By `List.Forall₂`, an item of the second list is related to one of the first. -/
theorem exists_of_forall₂ {R : α → β → Prop} {l : List α} {l' : List β} (h : List.Forall₂ R l l')
    {b : β} (hb : b ∈ l') : ∃ a ∈ l, R a b := by
  induction h with
  | nil => cases hb
  | cons hab _ ih =>
    rcases List.mem_cons.mp hb with rfl | hb
    · exact ⟨_, List.mem_cons_self, hab⟩
    · obtain ⟨a, ha, hab⟩ := ih hb
      exact ⟨a, List.mem_cons_of_mem _ ha, hab⟩

/-- The result of `ofElement` mirrors what was read, and nothing else does. Induction on the
element. -/
theorem ofElement_eq_ok_iff_mirrors (e : Element) :
    ∀ p, ofElement e = .ok p ↔ Mirrors e p := by
  induction e using Element.induction with
  | h e ih =>
    intro p
    rw [ofElement_eq_ok_iff, mirrors_iff]
    refine and_congr_right fun _ => forall₂_iff_of_mem fun c hc => ?_
    exact ih c (List.mem_of_mem_filter hc)

/-! ## When reading succeeds -/

/-- An element `Says` something exactly if it can be decoded. -/
theorem exists_says_iff {e : Element} : (∃ s, Says e s) ↔ e.Decodes := by
  constructor
  · rintro ⟨s, bytes, hbytes, -⟩
    exact ⟨bytes, hbytes⟩
  · rintro ⟨bytes, hbytes⟩
    exact ⟨_, bytes, hbytes, rfl⟩

/-- A part is given, by `Gives`, exactly if its child element can be decoded, or there is something
instead. -/
theorem exists_gives_iff {e : Element} {part : String} (instead : Option String → Prop) :
    (∃ o, Gives e part instead o) ↔ (∀ c, e.child? part = some c → c.Decodes) ∧
      (e.child? part = none → ∃ o, instead o) := by
  unfold Gives
  cases e.child? part with
  | none => simp
  | some c => simp [← exists_says_iff, exists_comm]

/-- The text of an element has an `OwnValue` exactly if it is blank or can be decoded. -/
theorem exists_ownValue_iff {e : Element} : (∃ o, OwnValue e o) ↔ (¬e.IsBlank → e.Decodes) := by
  unfold OwnValue
  by_cases hblank : e.IsBlank
  · simp [hblank]
  · simp [hblank, ← exists_says_iff, exists_comm]

/-- An attribute `Counts` exactly if it is a number of 32 bits where it is there. -/
theorem exists_counts_iff {e : Element} {name : String} : (∃ n, e.Counts name n) ↔
    ∀ raw, e.attr? name = some raw →
      ∃ w : UInt32, Text.Numeral.Padded Text.isBlank raw.toList w.toNat := by
  constructor
  · rintro ⟨n, hn⟩ raw hraw
    cases n with
    | none => cases hn.symm.trans hraw
    | some w =>
      obtain ⟨raw', hraw', hpadded⟩ := hn
      cases hraw.symm.trans hraw'
      exact ⟨w, hpadded⟩
  · intro h
    cases hattr : e.attr? name with
    | none => exact ⟨none, hattr⟩
    | some raw =>
      obtain ⟨w, hw⟩ := h raw hattr
      exact ⟨some w, raw, hattr, hw⟩

/-- What an element says by itself has a reading exactly if it is `LocallyReadable`, whatever
properties are below it. -/
theorem exists_tells_iff {e : Element} (children : List Property) :
    (∃ p, p.children = children ∧ Tells e p) ↔ e.LocallyReadable := by
  constructor
  · rintro ⟨p, -, h⟩
    have hname := ((exists_gives_iff _).mp ⟨_, h.name⟩).1
    have hfullname := ((exists_gives_iff _).mp ⟨_, h.fullname⟩).1
    obtain ⟨hvalue, hown⟩ := (exists_gives_iff _).mp ⟨_, h.value⟩
    refine ⟨?_, fun hnone => exists_ownValue_iff.mp (hown hnone), ?_⟩
    · simp only [List.forall_mem_cons, List.not_mem_nil, false_implies, implies_true, and_true]
      exact ⟨hname, hfullname, hvalue⟩
    · simp only [List.forall_mem_cons, List.not_mem_nil, false_implies, implies_true, and_true]
      exact ⟨exists_counts_iff.mp ⟨_, h.numChildren⟩, exists_counts_iff.mp ⟨_, h.page⟩,
        exists_counts_iff.mp ⟨_, h.pageSize⟩⟩
  · rintro ⟨hparts, htext, hnumbers⟩
    simp only [List.forall_mem_cons, List.not_mem_nil, false_implies, implies_true, and_true]
      at hparts hnumbers
    obtain ⟨fullname, hfullname⟩ := (exists_gives_iff (· = e.attr? "fullname")).mpr
      ⟨hparts.2.1, fun _ => ⟨_, rfl⟩⟩
    obtain ⟨value, hvalue⟩ := (exists_gives_iff _).mpr
      ⟨hparts.2.2, fun hnone => exists_ownValue_iff.mpr (htext hnone)⟩
    obtain ⟨numChildren, hnumChildren⟩ := exists_counts_iff.mpr hnumbers.1
    obtain ⟨page, hpage⟩ := exists_counts_iff.mpr hnumbers.2.1
    obtain ⟨pageSize, hpageSize⟩ := exists_counts_iff.mpr hnumbers.2.2
    -- Unlike the other parts, a name is never missing.
    obtain ⟨name, hname⟩ : ∃ s, readName e = .ok s := by
      obtain ⟨o, ho⟩ := (exists_gives_iff (· = some ((e.attr? "name").getD ""))).mpr
        ⟨hparts.1, fun _ => ⟨_, rfl⟩⟩
      cases o with
      | none =>
        unfold Gives at ho
        split at ho
        · obtain ⟨s, -, h⟩ := ho
          cases h
        · cases ho
      | some s => exact ⟨s, readName_eq_ok_iff.mpr ho⟩
    let p : Property :=
      { name, fullname, numChildren, page, pageSize, value, children
        kind := e.attr? "type"
        classname := e.attr? "classname"
        constant := e.flag "constant"
        hasChildren := e.flag "children" || !children.isEmpty
        key := e.attr? "key"
        address := e.attr? "address"
        encoding := e.attr? "encoding" }
    exact ⟨p, rfl, readName_eq_ok_iff.mp hname, hfullname, hvalue, hnumChildren, hpage, hpageSize, rfl,
      rfl, rfl, rfl, rfl, rfl, rfl⟩

/-- `ofElement` succeeds exactly if everything that it comes to is `LocallyReadable`. -/
theorem exists_ofElement_iff (e : Element) :
    (∃ p, ofElement e = .ok p) ↔ ∀ d, e.Reaches d → d.LocallyReadable := by
  induction e using Element.induction with
  | h e ih =>
    have hchildren : (∃ ps, List.Forall₂ (fun c p => ofElement c = .ok p)
        (e.childrenNamed "property") ps) ↔
          ∀ c ∈ e.childrenNamed "property", ∀ d, c.Reaches d → d.LocallyReadable := by
      rw [exists_forall₂_iff]
      exact forall₂_congr fun c hc => ih c (List.mem_of_mem_filter hc)
    constructor
    · rintro ⟨p, hp⟩ d hd
      obtain ⟨htells, hps⟩ := ofElement_eq_ok_iff.mp hp
      cases hd with
      | self => exact (exists_tells_iff p.children).mp ⟨p, rfl, htells⟩
      | down hc hd => exact hchildren.mp ⟨p.children, hps⟩ _ hc d hd
    · intro h
      obtain ⟨ps, hps⟩ := hchildren.mpr fun c hc d hd => h d (.down hc hd)
      obtain ⟨p, rfl, htells⟩ := (exists_tells_iff ps).mpr (h e (.self e))
      exact ⟨p, ofElement_eq_ok_iff.mpr ⟨htells, hps⟩⟩

/-- Every `Node` of what mirrors an element mirrors an element that is reached. -/
theorem Mirrors.exists_of_node {e : Element} {p q : Property} (h : Mirrors e p) (hq : p.Node q) :
    ∃ d, e.Reaches d ∧ Mirrors d q := by
  induction hq generalizing e with
  | self p => exact ⟨e, .self e, h⟩
  | @down p c q hc _ ih =>
    obtain ⟨-, hchildren⟩ := mirrors_iff.mp h
    obtain ⟨c', hc', hmirrors⟩ := exists_of_forall₂ hchildren hc
    obtain ⟨d, hd, hmirrors⟩ := ih hmirrors
    exact ⟨d, .down hc' hd, hmirrors⟩

/-- By `Tells`, a node with children says that it has some. -/
theorem Tells.hasChildren_of_ne_nil {e : Element} {p : Property} (h : Tells e p)
    (hne : p.children ≠ []) : p.hasChildren = true := by
  have hempty : p.children.isEmpty = false := by
    rwa [Bool.eq_false_iff, ne_eq, List.isEmpty_iff]
  rw [h.hasChildren, hempty, Bool.not_false, Bool.or_true]

/-- Every `Node` of a property that was read tells what an element gives that is reached, and says
that it has children if it has some. -/
theorem tells_of_node {e : Element} {p q : Property} (hp : ofElement e = .ok p) (hq : p.Node q) :
    (∃ d, e.Reaches d ∧ Tells d q) ∧ (q.children ≠ [] → q.hasChildren = true) := by
  obtain ⟨d, hd, hmirrors⟩ := ((ofElement_eq_ok_iff_mirrors e p).mp hp).exists_of_node hq
  have htells := (mirrors_iff.mp hmirrors).1
  exact ⟨⟨d, hd, htells⟩, htells.hasChildren_of_ne_nil⟩

end Property

/-! ## Lists of properties -/

/-- Whether everything that reading comes to is `LocallyReadable` can be found out by reading. -/
instance (e : Element) : Decidable (∀ d, e.Reaches d → d.LocallyReadable) :=
  decidable_of_iff _ (isSome_toOption_iff.trans (Property.exists_ofElement_iff e))

namespace Property

/-- `allOfResponse` keeps, in order, the properties of a response that can be read as a whole. -/
theorem mirrors_allOfResponse (r : Response) :
    List.Forall₂ Mirrors ((r.root.childrenNamed "property").filter fun c =>
      ∀ d, c.Reaches d → d.LocallyReadable) (allOfResponse r) :=
  forall₂_filterMap (fun c p => (ofElement_eq_ok_iff_mirrors c p).mp) exists_ofElement_iff _

/-- A property two levels down whose Base64 is broken takes the first one with it, and not the second. -/
example : (allOfResponse ⟨1, "context_get", ⟨"response", [],
      [⟨"property", [("name", "a")], [⟨"property", [("name", "b")],
          [⟨"property", [("encoding", "base64")], [], "?"⟩], ""⟩], ""⟩,
        ⟨"property", [("name", "c")], [⟨"note", [], [], ""⟩, ⟨"property", [], [], " "⟩], ""⟩],
      ""⟩⟩).map (fun p => (p.name, p.hasChildren, p.children.map (·.value))) =
    [("c", true, [none])] := by
  decide +kernel

end Property

end Dbgp
