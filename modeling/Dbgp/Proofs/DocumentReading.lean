import Dbgp.Proofs.Spelling
import Dbgp.Xml.Namespace
import Mathlib.Data.List.Nodup

/-!
# Reading documents back

Whatever way a tree is written, its element is read back (`parse_eq_ok_of_written`). Tags, comments
and sections end where they are meant to, and elements without qualifiers are what they are in every
scope. For content the induction is over the ways to write it. Text runs that stand next to each other
are read as one, and so what is shown of content is shown with some spelled text before it
(`Content.Written.reads`).

`Reads` and `ReadsElement` say what is read without the fuel that the readers take: any amount above
the size of what is read is enough.
-/

namespace Dbgp.Xml

open Markup

/-! ## Tags -/

namespace Markup

/-- `quoted?` reads up to the quote that closes a value. -/
theorem quoted?_append {quote : Char} {w : List Char} (hquote : quote ∉ w) (hopen : '<' ∉ w)
    (hxml : ∀ c ∈ w, isXmlChar c = true) (rest : List Char) :
    quoted? quote (w ++ quote :: rest) = some (w, rest) := by
  induction w with
  | nil => simp [quoted?]
  | cons c w ih =>
    rw [List.mem_cons, not_or] at hquote hopen
    rw [List.forall_mem_cons] at hxml
    have hc : (decide (c = '<') || !isXmlChar c) = false := by
      simp [hxml.1, Ne.symm hopen.1]
    rw [List.cons_append, quoted?, if_neg (Ne.symm hquote.1), hc, if_neg (by simp),
      ih hquote.2 hopen.2 hxml.2, Option.map_some]

/-- `rawAttribute?` reads a name, blanks around the sign and a value between quotes of either kind. -/
theorem rawAttribute?_append (name : Name) {quote : Char} {before after w : List Char}
    (hbefore : Blank before) (hafter : Blank after) (hquote : quote = '"' ∨ quote = '\'')
    (hw : quote ∉ w) (hopen : '<' ∉ w) (hxml : ∀ c ∈ w, isXmlChar c = true) (rest : List Char) :
    rawAttribute?
        (name.text.toList ++ (before ++ '=' :: (after ++ quote :: (w ++ quote :: rest)))) =
      some (⟨"", name.text⟩, w, rest) := by
  have hname := qname?_append name
    (endsName_blank hbefore (endsName_cons '=' (after ++ quote :: (w ++ quote :: rest)) (by decide)))
  have hskip : skipSpaces (before ++ '=' :: (after ++ quote :: (w ++ quote :: rest))) =
      '=' :: (after ++ quote :: (w ++ quote :: rest)) := skipSpaces_append hbefore (by decide) _
  have hskip' : skipSpaces (after ++ quote :: (w ++ quote :: rest)) = quote :: (w ++ quote :: rest) := by
    rcases hquote with rfl | rfl
    · exact skipSpaces_append hafter (by decide) _
    · exact skipSpaces_append hafter (by decide) _
  have hvalue := quoted?_append hw hopen hxml rest
  simp [rawAttribute?, hname, hskip, hskip', hquote, hvalue]

/-- An attribute as it is read: without a qualifier. -/
def plainAttribute (a : Name × Characters) : Attribute :=
  ⟨⟨"", a.1.text⟩, a.2.text⟩

/-- The end of a start tag. -/
def tagEnd (empty : Bool) : List Char :=
  if empty then ['/', '>'] else ['>']

/-- `skipSpaces` skips the gap before the end of a tag. -/
theorem skipSpaces_tagEnd {gap : List Char} (h : Blank gap) (empty : Bool) (rest : List Char) :
    skipSpaces (gap ++ (tagEnd empty ++ rest)) = tagEnd empty ++ rest := by
  cases empty with
  | false => exact skipSpaces_append h (by decide) _
  | true => exact skipSpaces_append h (by decide) _

/-- `attributes?` reads no attribute at the end of a tag. -/
theorem attributes?_tagEnd {gap : List Char} (h : Blank gap) (empty : Bool) (rest : List Char)
    (fuel : Nat) :
    attributes? (fuel + 1) (gap ++ (tagEnd empty ++ rest)) = some ([], empty, rest) := by
  rw [attributes?, skipSpaces_tagEnd h]
  cases empty with
  | false => rfl
  | true => rfl

/-- `attributes?` reads an attribute after a gap, and then the rest. -/
theorem attributes?_cons {gap cs rest raw : List Char} {c : Char} {name : QName} {value : String}
    (hgap : Blank gap) (hne : gap ≠ []) (hc : isNameStart c = true)
    (hraw : rawAttribute? (c :: cs) = some (name, raw, rest))
    (hvalue : attributeValue? raw = some value) (fuel : Nat) :
    attributes? (fuel + 1) (gap ++ c :: cs) =
      (attributes? fuel rest).map fun p => (⟨name, value⟩ :: p.1, p.2) := by
  have hspace : isSpace c = false := by
    by_contra h
    have hfalse := (isNameChar_of_isSpace (by simpa using h)).1
    simp [isNameChar_of_isNameStart hc] at hfalse
  obtain ⟨d, gap, rfl⟩ := List.exists_cons_of_ne_nil hne
  have hd : isSpace d = true := hgap d List.mem_cons_self
  rw [attributes?, skipSpaces_append hgap hspace]
  split
  case h_1 heq =>
    obtain ⟨rfl, -⟩ := List.cons.inj heq
    exact absurd hc (by decide)
  case h_2 heq =>
    obtain ⟨rfl, -⟩ := List.cons.inj heq
    exact absurd hc (by decide)
  case h_3 =>
    simp [hd, hraw, hvalue]
    cases attributes? fuel rest <;> rfl

/-- `attributes?` reads back attributes in whatever way they are written. -/
theorem attributes?_append {list : List (Name × Characters)} {a : List Char}
    (h : AttributesWritten list a) {gap : List Char} (hgap : Blank gap) (empty : Bool)
    (rest : List Char) {fuel : Nat} (hfuel : a.length < fuel) :
    attributes? fuel (a ++ (gap ++ (tagEnd empty ++ rest))) =
      some (list.map plainAttribute, empty, rest) := by
  induction h generalizing fuel with
  | nil =>
    obtain ⟨fuel, rfl⟩ : ∃ n, fuel = n + 1 := ⟨fuel - 1, by omega⟩
    exact attributes?_tagEnd hgap empty rest fuel
  | @cons name value others quote gap' before after w v hne hgap' hbefore hafter hquote hw _ ih =>
    obtain ⟨fuel, rfl⟩ : ∃ n, fuel = n + 1 := ⟨fuel - 1, by omega⟩
    have hends : quote ∉ w := hw.not_mem (by simp [isReservedInValue])
      (by rcases hquote with rfl | rfl <;> decide) (by rcases hquote with rfl | rfl <;> decide)
    have hopen : '<' ∉ w := hw.not_mem (by simp [isReservedInValue]) (by decide) (by decide)
    have hraw := rawAttribute?_append name hbefore hafter hquote hends hopen
      (fun c hc => hw.isXmlChar_of_mem value.valid hc) (v ++ (gap ++ (tagEnd empty ++ rest)))
    have hrest := ih (show v.length < fuel by simp at hfuel; omega)
    obtain ⟨c, cs, hname, hc⟩ := name.exists_cons
    rw [hname, List.cons_append] at hraw
    have hcons := attributes?_cons hgap' hne hc hraw (hw.attributeValue?_eq value.valid) fuel
    simp only [hname, List.append_assoc, List.cons_append, hcons, hrest, Option.map_some,
      List.map_cons, plainAttribute, String.ofList_toList]

/-- Attributes come after a name, or what follows them does. -/
theorem endsName_attributes {list : List (Name × Characters)} {a : List Char}
    (h : AttributesWritten list a) {rest : List Char} (hrest : EndsName rest) :
    EndsName (a ++ rest) := by
  cases h with
  | nil => exact hrest
  | @cons _ _ _ _ gap _ _ _ _ hne hgap =>
    obtain ⟨d, gap, rfl⟩ := List.exists_cons_of_ne_nil hne
    exact endsName_cons d _ (isNameChar_of_isSpace (hgap d List.mem_cons_self))

/-- The end of a tag ends a name. -/
theorem endsName_tagEnd (empty : Bool) (rest : List Char) : EndsName (tagEnd empty ++ rest) := by
  cases empty with
  | false => exact endsName_cons '>' rest (by decide)
  | true => exact endsName_cons '/' _ (by decide)

/-- `endTag?` reads the end tag of a name, with a gap after it. -/
theorem endTag?_append (name : Name) {gap : List Char} (h : Blank gap) (rest : List Char) :
    endTag? ⟨"", name.text⟩ (name.text.toList ++ (gap ++ '>' :: rest)) = some rest := by
  have hname := qname?_append name (endsName_blank h (endsName_cons '>' rest (by decide)))
  have hskip : skipSpaces (gap ++ '>' :: rest) = '>' :: rest := skipSpaces_append h (by decide) rest
  simp [endTag?, hname, hskip]

/-! ## Comments and sections -/

/-- The end of a comment or of a section is found by `until?` where it is, since two equal signs and
an angle bracket do not overlap with a copy of themselves. -/
theorem until?_append {stop : String} {x : Char} (hstop : stop.toList = [x, x, '>']) (hx : x ≠ '>')
    {body : List Char} (hopen : ¬ stop.toList <:+: body) (hxml : ∀ c ∈ body, isXmlChar c = true)
    (rest : List Char) : until? stop (body ++ (stop.toList ++ rest)) = some (body, rest) := by
  have hlength : stop.length = 3 := by rw [← String.length_toList, hstop]; rfl
  rw [hstop] at hopen ⊢
  induction body with
  | nil => simp [until?, hstop, hlength]
  | cons c body ih =>
    rw [List.infix_cons_iff, not_or] at hopen
    rw [List.forall_mem_cons] at hxml
    have hnot : ¬ [x, x, '>'].isPrefixOf (c :: (body ++ ([x, x, '>'] ++ rest))) = true := by
      intro hprefix
      rw [List.isPrefixOf_iff_prefix] at hprefix
      rcases body with _ | ⟨d, _ | ⟨e, body⟩⟩
      · simp [Ne.symm hx] at hprefix
      · simp [Ne.symm hx] at hprefix
      · exact hopen.1 (by simpa using hprefix)
    rw [List.cons_append, until?, hstop, if_neg hnot, if_pos hxml.1, ih hopen.2 hxml.2,
      Option.map_some]

/-- `comment?` reads a comment up to its end. -/
theorem comment?_append (body : CommentText) (rest : List Char) :
    comment? (body.text.toList ++ ("-->".toList ++ rest)) = some rest := by
  have hopen : ¬ "-->".toList <:+: body.text.toList := by
    intro h
    have hdashes : "--".toList <:+: "-->".toList := ⟨[], ['>'], rfl⟩
    exact body.noDashes (hdashes.trans h)
  have huntil : until? "-->" (body.text.toList ++ ("-->".toList ++ rest)) =
      some (body.text.toList, rest) := until?_append rfl (by decide) hopen body.valid rest
  have hdashes : occurs ['-', '-'] body.text.toList = false := by
    rw [← Bool.not_eq_true, occurs_iff]
    exact body.noDashes
  rw [comment?, huntil]
  simp [hdashes, body.noLastDash]

/-- `Markup.section?` reads a section up to its end. -/
theorem section?_append (body : SectionText) (rest : List Char) :
    Markup.section? (body.text.toList ++ ("]]>".toList ++ rest)) = some (body.text, rest) := by
  have huntil : until? "]]>" (body.text.toList ++ ("]]>".toList ++ rest)) =
      some (body.text.toList, rest) := until?_append rfl (by decide) body.unclosed body.valid rest
  have hends : lineEnds false (body.text.toList.map .literal) = body.text.toList := by
    rw [lineEnds_eq (by simpa using body.noReturn), List.map_map]
    exact List.map_id _
  rw [section?, huntil, Option.map_some, hends, String.ofList_toList]

/-! ## Elements without qualifiers -/

/-- Attributes of which none is a declaration declare nothing. -/
theorem declared?_map {list : List (Name × Characters)} (h : ∀ a ∈ list, a.1.text ≠ "xmlns") :
    Scope.declared? (list.map plainAttribute) = some [] := by
  induction list with
  | nil => rfl
  | cons a list ih =>
    rw [List.forall_mem_cons] at h
    simp [Scope.declared?, ih h.2, plainAttribute, h.1]

/-- `plainAttributes?.distinct` decides whether keys differ. -/
theorem distinct_iff {keys : List (Option String × String)} :
    plainAttributes?.distinct keys = true ↔ keys.Nodup := by
  induction keys with
  | nil => simp [plainAttributes?.distinct]
  | cons k keys ih => simp [plainAttributes?.distinct, ih]

/-- Attributes without qualifiers are in no namespace. -/
theorem mapM_space?_plain (list : List (Name × Characters)) (scope : Scope) :
    (list.map plainAttribute).mapM (Attribute.space? scope) = some (list.map fun _ => none) := by
  induction list with
  | nil => rfl
  | cons a list ih => simp [List.mapM_cons, Attribute.space?, plainAttribute, ih]

/-- `plainAttributes?` reads back attributes without qualifiers. -/
theorem plainAttributes?_map (attributes : AttributeList) (scope : Scope) :
    plainAttributes? scope ((attributes.list.map plainAttribute).filter fun a => !a.isDeclaration) =
      some attributes.values := by
  have hfilter : ((attributes.list.map plainAttribute).filter fun a => !a.isDeclaration) =
      attributes.list.map plainAttribute := by
    rw [List.filter_eq_self, List.forall_mem_map]
    intro a ha
    simp [Attribute.isDeclaration, plainAttribute, attributes.undeclaring a ha]
  have hlabels : (attributes.list.map plainAttribute).map (fun a => a.name.label) =
      attributes.list.map fun a => a.1.text := by
    rw [List.map_map]
    rfl
  have hkeys : ((attributes.list.map fun _ => (none : Option String)).zip
      (attributes.list.map fun a => a.1.text)).Nodup := by
    apply List.Nodup.of_map Prod.snd
    rw [List.map_snd_zip (by simp)]
    exact attributes.distinct
  rw [plainAttributes?, hfilter, mapM_space?_plain, hlabels, Option.bind_eq_bind, Option.bind_some,
    if_pos (distinct_iff.mpr hkeys), AttributeList.values, List.map_map]
  rfl

/-- An element and all its attributes without qualifiers are what they are in every `Scope`. -/
theorem toElement?_plain (name : Name) (attributes : AttributeList) {scope : Scope}
    {content : List Markup} {children : List Element}
    (h : toElements? scope content = some children) :
    toElement? scope (.element ⟨"", name.text⟩ (attributes.list.map plainAttribute) content) =
      some ⟨name.text, attributes.values, children, directText content⟩ := by
  rw [toElement?, declared?_map attributes.undeclaring]
  simp [plainAttributes?_map, h]

/-- `toElements?` of an element and what follows it. -/
theorem toElements?_cons {scope : Scope} {m : Markup} {ms : List Markup} {e : Element}
    {es : List Element} (hm : toElement? scope m = some e) (hms : toElements? scope ms = some es) :
    toElements? scope (m :: ms) = some (e :: es) := by
  cases m with
  | text s => simp [toElement?] at hm
  | element name attributes content => simp [toElements?, hm, hms]

/-- An element adds nothing to the text around it. -/
theorem directText_cons_element {scope : Scope} {m : Markup} {e : Element}
    (hm : toElement? scope m = some e) (ms : List Markup) :
    directText (m :: ms) = directText ms := by
  cases m with
  | text s => simp [toElement?] at hm
  | element name attributes content => rw [directText]

/-! ## Content -/

/-- Content is read from the start of some characters up to an end tag, with its text and its
elements, if there is fuel for its size. -/
def Reads (cs rest : List Char) (size : Nat) (text : String) (es : List Element) : Prop :=
  ∀ fuel, size < fuel → ∃ m, content? fuel cs = some (m, rest) ∧ directText m = text ∧
    ∀ scope, toElements? scope m = some es

/-- An element is read from the start of some characters, after the opening of its tag. -/
def ReadsElement (cs rest : List Char) (size : Nat) (e : Element) : Prop :=
  ∀ fuel, size < fuel → ∃ m, element? fuel cs = some (m, rest) ∧
    ∀ scope, toElement? scope m = some e

/-- More fuel does no harm. -/
theorem Reads.mono {cs rest : List Char} {size size' : Nat} {text : String} {es : List Element}
    (h : Reads cs rest size text es) (hle : size ≤ size') : Reads cs rest size' text es :=
  fun fuel hfuel => h fuel (by omega)

/-- An end tag ends the content. -/
theorem reads_end (rest : List Char) : Reads ('<' :: '/' :: rest) rest 0 "" [] := by
  intro fuel hfuel
  obtain ⟨fuel, rfl⟩ : ∃ n, fuel = n + 1 := ⟨fuel - 1, by omega⟩
  exact ⟨[], by rw [content?], rfl, fun scope => by rw [toElements?]⟩

/-- A comment before content that `Reads` is passed by. -/
theorem Reads.comment {cs rest : List Char} {size : Nat} {text : String} {es : List Element}
    (h : Reads cs rest size text es) (body : CommentText) :
    Reads ("<!--".toList ++ (body.text.toList ++ ("-->".toList ++ cs))) rest (size + 1) text es := by
  intro fuel hfuel
  obtain ⟨fuel, rfl⟩ : ∃ n, fuel = n + 1 := ⟨fuel - 1, by omega⟩
  obtain ⟨m, hm, htext, hes⟩ := h fuel (by omega)
  refine ⟨m, ?_, htext, hes⟩
  rw [show "<!--".toList = ['<', '!', '-', '-'] from rfl]
  simp only [List.cons_append, List.nil_append]
  rw [content?, comment?_append]
  exact hm

/-- A section before content that `Reads` adds its text. -/
theorem Reads.cdata {cs rest : List Char} {size : Nat} {text : String} {es : List Element}
    (h : Reads cs rest size text es) (body : SectionText) :
    Reads ("<![CDATA[".toList ++ (body.text.toList ++ ("]]>".toList ++ cs))) rest (size + 1)
      (body.text ++ text) es := by
  intro fuel hfuel
  obtain ⟨fuel, rfl⟩ : ∃ n, fuel = n + 1 := ⟨fuel - 1, by omega⟩
  obtain ⟨m, hm, htext, hes⟩ := h fuel (by omega)
  refine ⟨.text body.text :: m, ?_, by rw [directText, htext], fun scope => by rw [toElements?, hes]⟩
  rw [show "<![CDATA[".toList = '<' :: '!' :: "[CDATA[".toList from rfl]
  rw [List.cons_append, List.cons_append, content?, skipText?_append, Option.bind_eq_bind,
    Option.bind_some, section?_append]
  · simp [hm]
  · intro rest h
    cases h

/-- A run of text before content that `Reads`, up to the tag after it. -/
theorem Reads.run {run cs rest : List Char} {size : Nat} {body text : String} {es : List Element}
    (h : Reads ('<' :: cs) rest size text es) (hne : run ≠ []) (hopen : '<' ∉ run)
    (hxml : ∀ c ∈ run, isXmlChar c = true) (hbody : textValue? run = some body) :
    Reads (run ++ '<' :: cs) rest (size + 1) (body ++ text) es := by
  intro fuel hfuel
  obtain ⟨fuel, rfl⟩ : ∃ n, fuel = n + 1 := ⟨fuel - 1, by omega⟩
  obtain ⟨m, hm, htext, hes⟩ := h fuel (by omega)
  refine ⟨.text body :: m, ?_, by rw [directText, htext], fun scope => by rw [toElements?, hes]⟩
  have hne' : ∀ c ∈ run, decide (c ≠ '<') = true := by
    intro c hc
    simpa using fun h : c = '<' => hopen (h ▸ hc)
  have htake : (run ++ '<' :: cs).takeWhile (· ≠ '<') = run := takeWhile_append_stop hne' (by simp)
  have hdrop : (run ++ '<' :: cs).dropWhile (· ≠ '<') = '<' :: cs :=
    dropWhile_append_stop hne' (by simp)
  have hall : run.all isXmlChar = true := List.all_eq_true.mpr hxml
  obtain ⟨c, tail, rfl⟩ := List.exists_cons_of_ne_nil hne
  have hc : c ≠ '<' := by simpa using hne' c List.mem_cons_self
  rw [content?, htake, hdrop, if_pos hall, hbody]
  · simp [hm]
  -- what is left says that no tag, section, comment or instruction starts here
  all_goals simp [hc]

/-- An element with two tags, after the opening of the first. -/
theorem readsElement_tags (name : Name) {attributes : AttributeList} {a gap gap' cs rest : List Char}
    {size : Nat} {text : String} {es : List Element} (ha : AttributesWritten attributes.list a)
    (hgap : Blank gap) (hgap' : Blank gap')
    (h : Reads cs (name.text.toList ++ (gap' ++ '>' :: rest)) size text es) :
    ReadsElement (name.text.toList ++ (a ++ (gap ++ '>' :: cs))) rest (a.length + size + 1)
      ⟨name.text, attributes.values, es, text⟩ := by
  intro fuel hfuel
  obtain ⟨fuel, rfl⟩ : ∃ n, fuel = n + 1 := ⟨fuel - 1, by omega⟩
  obtain ⟨m, hm, rfl, hes⟩ := h fuel (by omega)
  refine ⟨.element ⟨"", name.text⟩ (attributes.list.map plainAttribute) m, ?_, fun scope =>
    toElement?_plain name attributes (hes scope)⟩
  have hname := qname?_append name (endsName_attributes ha
    (endsName_blank hgap (endsName_tagEnd false cs)))
  have hattributes := attributes?_append ha hgap false cs (show a.length < fuel by omega)
  have hend := endTag?_append name hgap' rest
  simp only [tagEnd, Bool.false_eq_true, if_false, List.singleton_append] at hname hattributes
  simp [element?, hname, hattributes, hm, hend]

/-- An element with one tag, after its opening. -/
theorem readsElement_empty (name : Name) {attributes : AttributeList} {a gap : List Char}
    (ha : AttributesWritten attributes.list a) (hgap : Blank gap) (rest : List Char) :
    ReadsElement (name.text.toList ++ (a ++ (gap ++ '/' :: '>' :: rest))) rest (a.length + 1)
      ⟨name.text, attributes.values, [], ""⟩ := by
  intro fuel hfuel
  obtain ⟨fuel, rfl⟩ : ∃ n, fuel = n + 1 := ⟨fuel - 1, by omega⟩
  refine ⟨.element ⟨"", name.text⟩ (attributes.list.map plainAttribute) [], ?_, fun scope =>
    toElement?_plain name attributes (by rw [toElements?])⟩
  have hname := qname?_append name (endsName_attributes ha
    (endsName_blank hgap (endsName_tagEnd true rest)))
  have hattributes := attributes?_append ha hgap true rest (show a.length < fuel by omega)
  simp only [tagEnd, if_true, List.cons_append, List.nil_append] at hname hattributes
  simp [element?, hname, hattributes]

/-- An element that `ReadsElement`, among content. -/
theorem Reads.element {c : Char} {cs rest rest' : List Char} {size size' : Nat} {text : String}
    {e : Element} {es : List Element} (hc : isNameStart c = true)
    (he : ReadsElement (c :: cs) rest size e) (h : Reads rest rest' size' text es) :
    Reads ('<' :: c :: cs) rest' (size + size' + 1) text (e :: es) := by
  intro fuel hfuel
  obtain ⟨fuel, rfl⟩ : ∃ n, fuel = n + 1 := ⟨fuel - 1, by omega⟩
  obtain ⟨m, hm, hte⟩ := he fuel (by omega)
  obtain ⟨ms, hms, htext, hes⟩ := h fuel (by omega)
  refine ⟨m :: ms, ?_, by rw [directText_cons_element (hte []), htext], fun scope =>
    toElements?_cons (hte scope) (hes scope)⟩
  rw [content?, hm]
  · simp [hms]
  all_goals
    intro tail heq
    obtain ⟨rfl, -⟩ := List.cons.inj heq
    exact absurd hc (by decide)

end Markup

/-! ## Documents -/

/-- Text that is `Spelled` out before a tag. -/
theorem Markup.Reads.spelled {cs w ds rest : List Char} {size : Nat} {text : String}
    {es : List Element} (h : Reads ('<' :: ds) rest size text es) (hw : Spelled isReservedInText cs w)
    (hcs : ∀ c ∈ cs, isXmlChar c = true) :
    Reads (w ++ '<' :: ds) rest (w.length + size) (String.ofList cs ++ text) es := by
  by_cases hne : w = []
  · subst hne
    cases hw with
    | nil => simpa using h
  · have hpos : 0 < w.length := List.length_pos_iff.mpr hne
    have hrun := h.run hne (hw.not_mem (by decide) (by decide) (by decide))
      (fun c hc => hw.isXmlChar_of_mem hcs hc) (hw.textValue?_eq hcs)
    exact hrun.mono (by omega)

/-- Content that is `Content.Written` is read back, with some text that stands before it. Induction on
the way in which it is written. -/
theorem Content.Written.reads {c : Content} {v : List Char} (h : c.Written v) {cs w : List Char}
    (hw : Spelled isReservedInText cs w) (hcs : ∀ c ∈ cs, isXmlChar c = true) (rest : List Char) :
    Reads (w ++ (v ++ '<' :: '/' :: rest)) rest (w.length + v.length) (String.ofList cs ++ c.ownText)
      c.children := by
  -- text runs pile up before what follows them, as they are read in one go
  induction h generalizing cs w rest with
  | done => exact (reads_end rest).spelled hw hcs
  | @text run others w' v hrun _ ih =>
    have hxml : ∀ c ∈ cs ++ run.text.toList, isXmlChar c = true := by
      intro c hc
      rcases List.mem_append.mp hc with hc | hc
      · exact hcs c hc
      · exact run.valid c hc
    have hreads := ih (hw.append hrun) hxml rest
    rw [String.ofList_append, String.ofList_toList, String.append_assoc] at hreads
    simpa [Content.ownText, Content.children, Nat.add_assoc] using hreads
  | @cdata body others v _ ih =>
    have hrest : Reads (v ++ '<' :: '/' :: rest) rest v.length others.ownText others.children := by
      simpa using ih .nil (by simp) rest
    have hreads := (hrest.cdata body).spelled hw hcs
    simp only [List.append_assoc, Content.ownText, Content.children]
    exact hreads.mono (by simp; omega)
  | @comment body others v _ ih =>
    have hrest : Reads (v ++ '<' :: '/' :: rest) rest v.length others.ownText others.children := by
      simpa using ih .nil (by simp) rest
    have hreads := (hrest.comment body).spelled hw hcs
    simp only [List.append_assoc, Content.ownText, Content.children]
    exact hreads.mono (by simp; omega)
  | @element name attributes inner others a gap w' gap' v ha hgap _ hgap' _ ihInner ihRest =>
    have hrest : Reads (v ++ '<' :: '/' :: rest) rest v.length others.ownText others.children := by
      simpa using ihRest .nil (by simp) rest
    have hinner := ihInner .nil (by simp)
      (name.text.toList ++ (gap' ++ '>' :: (v ++ '<' :: '/' :: rest)))
    have helement := readsElement_tags name ha hgap hgap' hinner
    obtain ⟨c, tail, hname, hc⟩ := name.exists_cons
    simp only [hname, List.cons_append, List.nil_append, String.ofList_nil,
      String.empty_append] at helement
    have hreads := (Reads.element hc helement hrest).spelled hw hcs
    simp only [List.append_assoc, List.cons_append, Content.ownText, Content.children, hname]
    exact hreads.mono (by simp; omega)
  | @empty name attributes others a gap v ha hgap _ ih =>
    have hrest : Reads (v ++ '<' :: '/' :: rest) rest v.length others.ownText others.children := by
      simpa using ih .nil (by simp) rest
    have helement := readsElement_empty name ha hgap (v ++ '<' :: '/' :: rest)
    obtain ⟨c, tail, hname, hc⟩ := name.exists_cons
    simp only [hname, List.cons_append] at helement
    have hreads := (Reads.element hc helement hrest).spelled hw hcs
    simp only [List.append_assoc, List.cons_append, Content.ownText, Content.children, hname]
    exact hreads.mono (by simp; omega)

/-- `Element.parse` of a document that starts with an element and has nothing after it. -/
theorem parse_of_readsElement (name : Name) {cs : List Char} {size : Nat} {e : Element}
    (h : ReadsElement (name.text.toList ++ cs) [] size e)
    (hsize : size ≤ (name.text.toList ++ cs).length) :
    Element.parse (String.ofList ('<' :: (name.text.toList ++ cs))) = .ok e := by
  obtain ⟨m, hm, he⟩ := h ((name.text.toList ++ cs).length + 1) (by omega)
  obtain ⟨c, tail, hname, hc⟩ := name.exists_cons
  rw [hname, List.cons_append] at hm ⊢
  generalize tail ++ cs = cs at hm ⊢
  have hxml : skipText? "<?xml " ('<' :: c :: cs) = none := by
    have hc' : '?' ≠ c := by
      rintro rfl
      exact absurd hc (by decide)
    simp [skipText?, hc']
  have hmisc : misc? (cs.length + 3) ('<' :: c :: cs) = some ('<' :: c :: cs) := by
    have hskip : skipSpaces ('<' :: c :: cs) = '<' :: c :: cs := rfl
    rw [misc?, hskip]
    split
    case h_1 heq =>
      cases heq
      exact absurd hc (by decide)
    case h_2 heq =>
      cases heq
      exact absurd hc (by decide)
    case h_3 => rfl
  have hdocument : document? (String.ofList ('<' :: c :: cs)) = some m := by
    have hmark : dropMark ('<' :: c :: cs) = '<' :: c :: cs := rfl
    have hafter : misc? 1 [] = some [] := rfl
    rw [document?, String.toList_ofList, hmark, hxml]
    simp only [List.length_cons] at hm
    simp [hmisc, hm, hafter]
  rw [Element.parse, hdocument, Option.bind_some, he]

/-- A root element with nothing after it is read back. -/
theorem Content.Written.parse_root {name : Name} {attributes : AttributeList} {inner : Content}
    {u : List Char} (h : (Content.element name attributes inner .done).Written u) :
    Element.parse (String.ofList u) =
      .ok ⟨name.text, attributes.values, inner.children, inner.ownText⟩ := by
  cases h with
  | @element _ _ _ _ a gap w gap' v ha hgap hinner hgap' hdone =>
    cases hdone
    have hreads := hinner.reads .nil (by simp) (name.text.toList ++ (gap' ++ ['>']))
    rw [List.nil_append, String.ofList_nil, String.empty_append] at hreads
    exact parse_of_readsElement name (readsElement_tags name ha hgap hgap' hreads) (by simp; omega)
  | @empty _ _ _ a gap v ha hgap hdone =>
    cases hdone
    exact parse_of_readsElement name (readsElement_empty name ha hgap []) (by simp; omega)

/-- Whatever way a tree is written, it is read back. -/
theorem parse_eq_ok_of_written (t : Tree) :
    t.Written t.write ∧ ∀ text, t.Written text → Element.parse text = .ok t.element := by
  refine ⟨t.written_write, fun text h => ?_⟩
  have hroot := Content.Written.parse_root h
  rwa [String.ofList_toList] at hroot

/-- An element whose value and text hold every kind of reserved character, with text before and after
a comment, a section and a child. -/
def mixedTree : Tree where
  name := ⟨"p", by decide, List.all_eq_true.mp rfl⟩
  attributes :=
    ⟨[(⟨"k", by decide, List.all_eq_true.mp rfl⟩, ⟨"\"\t<", List.all_eq_true.mp rfl⟩)],
      by decide, by decide⟩
  content :=
    .text ⟨"a\r", List.all_eq_true.mp rfl⟩ <|
      .comment ⟨⟨" - ", List.all_eq_true.mp rfl⟩, by decide, by decide⟩ <|
        .text ⟨"]]>", List.all_eq_true.mp rfl⟩ <|
          .cdata ⟨⟨"]<", List.all_eq_true.mp rfl⟩, by decide, by decide⟩ <|
            .element ⟨"c", by decide, List.all_eq_true.mp rfl⟩ ⟨[], by decide, by decide⟩ .done .done

/-- The tree is written here with white space inside of its tags, and with references by name and by
number, one of them with a needless zero. -/
theorem parse_mixedTree :
    mixedTree.Written
        "<p\tk =\n'&quot;&#x9;&#060;' >a&#xD;<!-- - -->]]&gt;<![CDATA[]<]]><c /></p>" ∧
      Element.parse "<p\tk =\n'&quot;&#x9;&#060;' >a&#xD;<!-- - -->]]&gt;<![CDATA[]<]]><c /></p>" =
        .ok ⟨"p", [("k", "\"\t<")], [⟨"c", [], [], ""⟩], "a\r]]>]<"⟩ := by
  have hspace : ∀ c : Char, isSpace c = true → Blank [c] := by simp [Blank]
  have hvalue : Spelled (isReservedInValue '\'') "\"\t<".toList "&quot;&#x9;&#060;".toList :=
    .referred (.named (show ("quot", '"') ∈ predefined by decide))
      (.referred (@Refers.hexadecimal '\t' 0 ['9'] (by decide)) (.referred (.decimal 1) .nil))
  have hattributes : AttributesWritten mixedTree.attributes.list _ :=
    .cons (by decide) (hspace '\t' rfl) (hspace ' ' rfl) (hspace '\n' rfl) (.inr rfl) hvalue .nil
  have htext : Spelled isReservedInText "a\r".toList "a&#xD;".toList :=
    .plain (by decide) (.referred (@Refers.hexadecimal '\r' 0 ['D'] (by decide)) .nil)
  have hmore : Spelled isReservedInText "]]>".toList "]]&gt;".toList :=
    .plain (by decide) (.plain (by decide)
      (.referred (.named (show ("gt", '>') ∈ predefined by decide)) .nil))
  have hcontent : mixedTree.content.Written _ :=
    .text htext (.comment (.text hmore (.cdata (.empty .nil (hspace ' ' rfl) .done))))
  have hwritten : mixedTree.Written
      "<p\tk =\n'&quot;&#x9;&#060;' >a&#xD;<!-- - -->]]&gt;<![CDATA[]<]]><c /></p>" :=
    .element hattributes (hspace ' ' rfl) hcontent blank_nil .done
  exact ⟨hwritten, (parse_eq_ok_of_written mixedTree).2 _ hwritten⟩
end Dbgp.Xml
