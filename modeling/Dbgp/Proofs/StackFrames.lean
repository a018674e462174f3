import Dbgp.Proofs.BreakpointListing
import Dbgp.Proofs.PropertyTree

/-!
# Frames of the stack

An engine lists frames in any order, some of them perhaps unreadable, with anything else between them.
`StackFrame.Tells` relates an element to the frame that it stands for, and `StackFrame.Readable` says
when there is one.

Main statement: the call returns the frames of the readable elements, all of them and nothing else, by
level, and those of one level in the order of the document. What is put between the elements has no
part in it, except for an error, which is what the call returns then.
-/

namespace Dbgp

open Xml (Element)

/-! ## Lists with further items -/

/-- A list with further items of a kind put in anywhere. -/
inductive Inserted (P : α → Prop) : List α → List α → Prop
  | nil : Inserted P [] []
  | keep (a : α) {l l' : List α} : Inserted P l l' → Inserted P (a :: l) (a :: l')
  | add {a : α} {l l' : List α} : P a → Inserted P l l' → Inserted P l (a :: l')

/-- Items that `filterMap` drops may be inserted. -/
theorem Inserted.filterMap_eq {P : α → Prop} {f : α → Option β} {l l' : List α}
    (h : Inserted P l l') (hP : ∀ a, P a → f a = none) : l'.filterMap f = l.filterMap f := by
  induction h with
  | nil => rfl
  | keep a _ ih => rw [List.filterMap_cons, ih, List.filterMap_cons]
  | @add a _ _ ha _ ih => rw [List.filterMap_cons_none (hP a ha), ih]

/-- Items that `find?` passes by may be inserted. -/
theorem Inserted.find?_eq {P : α → Prop} {p : α → Bool} {l l' : List α} (h : Inserted P l l')
    (hP : ∀ a, P a → p a = false) : l'.find? p = l.find? p := by
  rw [← List.head?_filter, ← List.head?_filter, ← List.filterMap_eq_filter,
    h.filterMap_eq fun a ha => by simp [Option.guard, hP a ha]]

namespace StackFrame

/-! ## Sorting by level -/

/-- The order in which frames are returned, for `List.mergeSort`. -/
def byLevel (f g : StackFrame) : Bool :=
  f.level ≤ g.level

/-- `byLevel` is transitive. -/
theorem byLevel_trans (f g h : StackFrame) (hfg : byLevel f g = true) (hgh : byLevel g h = true) :
    byLevel f h = true := by
  simp only [byLevel, decide_eq_true_eq] at *
  exact UInt32.le_trans hfg hgh

/-- `byLevel` is total. -/
theorem byLevel_total (f g : StackFrame) : (byLevel f g || byLevel g f) = true := by
  simp only [byLevel, Bool.or_eq_true, decide_eq_true_eq]
  exact UInt32.le_total _ _

/-- Frames of one level stay in order: `List.mergeSort` is stable. -/
theorem filter_mergeSort (fs : List StackFrame) (level : UInt32) :
    (fs.mergeSort byLevel).filter (·.level = level) = fs.filter (·.level = level) := by
  -- Frames of one level are in order already, so sorting keeps them as a sublist.
  have hsorted : (fs.filter (·.level = level)).Pairwise fun f g => byLevel f g = true := by
    refine List.pairwise_iff_forall_sublist.mpr fun {f g} hsub => ?_
    have hf := List.of_mem_filter (hsub.subset (List.mem_cons_self ..))
    have hg := List.of_mem_filter (hsub.subset (List.mem_cons_of_mem f (List.mem_singleton_self g)))
    rw [decide_eq_true_eq] at hf hg
    simp only [byLevel, hf, hg, decide_eq_true_eq]
    exact UInt32.le_refl level
  have hsub := (List.sublist_mergeSort byLevel_trans byLevel_total hsorted List.filter_sublist).filter
    (·.level = level)
  rw [List.filter_filter] at hsub
  simp only [Bool.and_self] at hsub
  have hlength := ((List.mergeSort_perm fs byLevel).filter (·.level = level)).length_eq
  exact (hsub.eq_of_length hlength.symm).symm

/-! ## Reading a frame -/

/-- A frame is what its element says, attribute by attribute. -/
structure Tells (e : Element) (f : StackFrame) : Prop where
  level : e.Counts "level" (some f.level)
  line : ∃ n, e.Counts "lineno" n ∧ f.line = n.getD 0
  kind : f.kind = (e.attr? "type").getD "file"
  file : f.file = (e.attr? "filename").getD ""
  location : f.location = e.attr? "where"
  commandBegin : f.commandBegin = e.attr? "cmdbegin"
  commandEnd : f.commandEnd = e.attr? "cmdend"

/-- An element that can be read: it has a level, and its level and its line, if it has one, are
numbers of 32 bits. -/
structure Readable (e : Element) : Prop where
  level : ∃ raw, e.attr? "level" = some raw ∧
    ∃ w : UInt32, Text.Numeral.Padded Text.isBlank raw.toList w.toNat
  line : ∀ raw, e.attr? "lineno" = some raw →
    ∃ w : UInt32, Text.Numeral.Padded Text.isBlank raw.toList w.toNat

/-- `ofElement` reads a frame exactly if the element tells it (`Tells`). -/
theorem ofElement_eq_ok_iff {e : Element} {f : StackFrame} : ofElement e = .ok f ↔ Tells e f := by
  unfold ofElement
  rw [bind_eq_ok_iff]
  simp only [Element.word32?_eq_ok_iff]
  constructor
  · rintro ⟨level, hlevel, h⟩
    cases level with
    | none => cases h
    | some level =>
      obtain ⟨line, hline, h⟩ := bind_eq_ok_iff.mp h
      cases h
      exact ⟨hlevel, ⟨line, Element.word32?_eq_ok_iff.mp hline, rfl⟩, rfl, rfl, rfl, rfl, rfl⟩
  · rintro ⟨hlevel, ⟨line, hline, hf⟩, hkind, hfile, hlocation, hbegin, hend⟩
    refine ⟨some f.level, hlevel, bind_eq_ok_iff.mpr
      ⟨line, Element.word32?_eq_ok_iff.mpr hline, ?_⟩⟩
    obtain ⟨⟩ := f
    simp only at hf hkind hfile hlocation hbegin hend
    rw [hf, hkind, hfile, hlocation, hbegin, hend]
    rfl

/-- `ofElement` reads something exactly if the element is `Readable`. -/
theorem exists_ofElement_iff {e : Element} : (∃ f, ofElement e = .ok f) ↔ Readable e := by
  simp only [ofElement_eq_ok_iff]
  constructor
  · rintro ⟨f, htells⟩
    obtain ⟨raw, hraw, hpadded⟩ := htells.level
    obtain ⟨n, hn, -⟩ := htells.line
    exact ⟨⟨raw, hraw, f.level, hpadded⟩, Property.exists_counts_iff.mp ⟨n, hn⟩⟩
  · rintro ⟨⟨raw, hraw, level, hpadded⟩, hline⟩
    obtain ⟨n, hn⟩ := Property.exists_counts_iff.mpr hline
    exact ⟨⟨level, _, _, n.getD 0, _, _, _⟩, ⟨raw, hraw, hpadded⟩, ⟨n, hn, rfl⟩, rfl, rfl, rfl, rfl,
      rfl⟩

/-- Whether an element can be read can be found out by reading. -/
instance (e : Element) : Decidable (Readable e) :=
  decidable_of_iff _ (isSome_toOption_iff.trans exists_ofElement_iff)

/-- Frames by level: those that are listed, and those of one level in the order in which they are. -/
structure Arranged (listed fs : List StackFrame) : Prop where
  ordered : fs.Pairwise fun f g => f.level ≤ g.level
  same : fs.Perm listed
  stable : ∀ level, fs.filter (·.level = level) = listed.filter (·.level = level)

/-- Sorting by `byLevel` is what `Arranged` asks for. -/
theorem arranged_mergeSort (fs : List StackFrame) : Arranged fs (fs.mergeSort byLevel) where
  ordered := by
    refine (List.pairwise_mergeSort byLevel_trans byLevel_total fs).imp fun {f g} h => ?_
    rwa [byLevel, decide_eq_true_eq] at h
  same := List.mergeSort_perm fs byLevel
  stable := filter_mergeSort fs

/-- The frames of `ofResponse` are those that the response lists, by level. -/
theorem arranged_ofResponse (r : Response) : ∃ listed,
    List.Forall₂ Tells ((r.root.childrenNamed "stack").filter fun e => Readable e) listed ∧
      Arranged listed (ofResponse r) :=
  ⟨_, forall₂_filterMap (fun _ _ => ofElement_eq_ok_iff.mp) (fun _ => exists_ofElement_iff) _,
    arranged_mergeSort _⟩

/-- What has no part in a list of frames: elements of another kind and frames that cannot be read.
Errors are not meant. -/
def Idle (e : Element) : Prop :=
  e.name ≠ "error" ∧ (e.name = "stack" → ¬Readable e)

instance (e : Element) : Decidable (Idle e) :=
  inferInstanceAs (Decidable (_ ∧ _))

/-- `ofResponse` does not see elements that are `Idle`. -/
theorem ofResponse_of_inserted {r r' : Response} (h : Inserted Idle r.root.children r'.root.children) :
    ofResponse r' = ofResponse r := by
  have hnone : ∀ e, Idle e →
      (if decide (e.name = "stack") = true then (ofElement e).toOption else none) = none := by
    rintro e ⟨-, hidle⟩
    split
    · next hname =>
      have hfails := mt exists_ofElement_iff.mp (hidle (of_decide_eq_true hname))
      rwa [← isSome_toOption_iff, Bool.not_eq_true, Option.isSome_eq_false_iff,
        Option.isNone_iff_eq_none] at hfails
    · rfl
  rw [ofResponse, ofResponse, Element.childrenNamed, Element.childrenNamed, List.filterMap_filter,
    List.filterMap_filter, h.filterMap_eq hnone]

end StackFrame

/-- An element that is `StackFrame.Idle` makes no error of a response. -/
theorem Response.isError_of_inserted {r r' : Response}
    (h : Inserted StackFrame.Idle r.root.children r'.root.children) : r'.isError = r.isError := by
  rw [isError, isError, Element.child?, Element.child?, h.find?_eq fun e he => decide_eq_false he.1]

/-! ## The call -/

namespace Client

variable {n k : Nat} {depth : Option UInt32} {a : Response} {ms : List Move}

/-- Without an error the call returns what `StackFrame.ofResponse` reads. -/
theorem Concludes.reports_frames (h : Concludes n k (.getStack depth) a ms) (hfine : a.isError = false)
    (result : Except Error Reply) :
    (k, result) ∈ (run {} ms).finished ↔ result = .ok (.frames (StackFrame.ofResponse a)) :=
  h.reports_reading rfl rfl hfine result

/-- A call for the stack, in whatever run and whoever else is at work, returns the error that its
response reports. If it reports none, the call returns the frames of exactly those elements that can
be read, by level, and those of one level in the order of the document. It returns the same for every
response that has, at any places, further children that are no readable frames and no errors. -/
theorem stack_sorted_stably (hget : Concludes n k (.getStack depth) a ms) :
    (a.isError = true → ∃ e, a.error? = some e ∧
      ∀ result, (k, result) ∈ (run {} ms).finished ↔ result = .error e) ∧
    (a.isError = false → ∃ listed fs,
      List.Forall₂ StackFrame.Tells
        ((a.root.childrenNamed "stack").filter fun e => StackFrame.Readable e) listed ∧
      StackFrame.Arranged listed fs ∧
      (∀ result, (k, result) ∈ (run {} ms).finished ↔ result = .ok (.frames fs)) ∧
      ∀ n' k' depth' a' ms', Concludes n' k' (.getStack depth') a' ms' →
        Inserted StackFrame.Idle a.root.children a'.root.children →
        ∀ result, (k', result) ∈ (run {} ms').finished ↔ result = .ok (.frames fs)) := by
  refine ⟨hget.reports_error rfl rfl, fun hfine => ?_⟩
  obtain ⟨listed, htells, harranged⟩ := StackFrame.arranged_ofResponse a
  refine ⟨listed, _, htells, harranged, hget.reports_frames hfine, ?_⟩
  intro n' k' depth' a' ms' hget' hinserted
  rw [← StackFrame.ofResponse_of_inserted hinserted]
  exact hget'.reports_frames ((Response.isError_of_inserted hinserted).trans hfine)

/-! Two frames of one level around one of a lower level. Then the same response with an unreadable frame and
other elements between them, and with an error between them. -/

/-- Elements with attributes and nothing else. -/
def leaves (tags : List (String × List (String × String))) : List Element :=
  tags.map fun t => ⟨t.1, t.2, [], ""⟩

/-- Whether the children of a response are such elements. -/
def listsLeaves (tags : List (String × List (String × String))) (a : Response) : Bool :=
  a.root.children.map (fun e => (e.name, e.attributes)) = tags &&
    a.root.children.all fun e => e.children.isEmpty && e.text = ""

/-- `listsLeaves` decides what the children of a response are. -/
theorem children_of_listsLeaves {tags : List (String × List (String × String))}
    (h : listsLeaves tags a = true) : a.root.children = leaves tags := by
  rw [listsLeaves, Bool.and_eq_true, decide_eq_true_eq, List.all_eq_true] at h
  obtain ⟨rfl, hbare⟩ := h
  rw [leaves, List.map_map]
  refine (List.map_id _).symm.trans (List.map_congr_left fun e he => ?_)
  obtain ⟨hchildren, htext⟩ := (Bool.and_eq_true ..).mp (hbare e he)
  obtain ⟨⟩ := e
  simp only [List.isEmpty_iff, decide_eq_true_eq] at hchildren htext
  rw [hchildren, htext]
  rfl

def stackReply : String :=
  "<response transaction_id=\"1\"><stack level=\"1\" where=\"b\"/><stack level=\"0\"/>" ++
    "<stack level=\"1\"/></response>"

def stackReplyMixed : String :=
  "<response transaction_id=\"1\"><a/><stack level=\"1\" where=\"b\"/><stack level=\"0\"/><stack/>" ++
    "<stack level=\"1\"/></response>"

def stackReplyRefused : String :=
  "<response transaction_id=\"1\"><stack level=\"1\" where=\"b\"/><stack level=\"0\"/><error code=\"5\"/>" ++
    "<stack level=\"1\"/></response>"

def stackTags : List (String × List (String × String)) :=
  [("stack", [("level", "1"), ("where", "b")]), ("stack", [("level", "0")]), ("stack", [("level", "1")])]

def stackFrames : List StackFrame :=
  [⟨0, "file", "", 0, none, none, none⟩, ⟨1, "file", "", 0, some "b", none, none⟩,
   ⟨1, "file", "", 0, none, none, none⟩]

/-- A call is answered with `stackReply`, whose children are known. -/
theorem concludes_stackReply : ∃ a, Concludes 1 1 (.getStack none) a
    (responded (.getStack none) stackReply ++ [.task 1]) ∧ a.root.children = leaves stackTags := by
  have h : obtainsSuch (listsLeaves stackTags)
      ((run {} (responded (.getStack none) stackReply)).happenings (.task 1)) = true := by
    decide +kernel
  obtain ⟨a, ha, hchildren⟩ := concludes_responded h
  exact ⟨a, ha, children_of_listsLeaves hchildren⟩

/-- What is read from those children. -/
theorem ofResponse_stackTags (h : a.root.children = leaves stackTags) :
    StackFrame.ofResponse a = stackFrames ∧ a.isError = false := by
  have hread : ((leaves stackTags).filter fun c => c.name = "stack").filterMap
      (fun e => (StackFrame.ofElement e).toOption) =
        [⟨1, "file", "", 0, some "b", none, none⟩, ⟨0, "file", "", 0, none, none, none⟩,
          ⟨1, "file", "", 0, none, none, none⟩] := by
    decide +kernel
  rw [StackFrame.ofResponse, Element.childrenNamed, Response.isError, Element.child?, h, hread]
  constructor
  · simp [List.mergeSort, stackFrames]
  · decide +kernel

/-- The frames of `stackReply` are returned, and the same ones for `stackReplyMixed`. -/
theorem stack_sorted_stably_mixed :
    (1, .ok (.frames stackFrames)) ∈
        (run {} (responded (.getStack none) stackReply ++ [.task 1])).finished ∧
      (1, .ok (.frames stackFrames)) ∈
        (run {} (responded (.getStack (some 2)) stackReplyMixed ++ [.task 1])).finished := by
  obtain ⟨a, hget, hchildren⟩ := concludes_stackReply
  obtain ⟨hframes, hfine⟩ := ofResponse_stackTags hchildren
  obtain ⟨listed, fs, -, -, hresult, hinserted⟩ := (stack_sorted_stably hget).2 hfine
  have hfs := (hget.reports_frames hfine _).mp ((hresult (.ok (.frames fs))).mpr rfl)
  cases hfs.trans (by rw [hframes])
  have h : obtainsSuch (listsLeaves
      (("a", []) :: stackTags.take 2 ++ ("stack", []) :: stackTags.drop 2))
      ((run {} (responded (.getStack (some 2)) stackReplyMixed)).happenings (.task 1)) = true := by
    decide +kernel
  obtain ⟨a', hget', hchildren'⟩ := concludes_responded h
  refine ⟨(hresult _).mpr rfl, (hinserted 1 1 (some 2) a' _ hget' ?_ _).mpr rfl⟩
  rw [hchildren, children_of_listsLeaves hchildren']
  exact .add (by decide) (.keep _ (.keep _ (.add (by decide) (.keep _ .nil))))

/-- An error among the children keeps back the frames that are returned without it, although it is no
`stack` element. -/
theorem stack_withheld_on_error : ∃ a a',
    Concludes 1 1 (.getStack none) a (responded (.getStack none) stackReply ++ [.task 1]) ∧
    Concludes 1 1 (.getStack none) a' (responded (.getStack none) stackReplyRefused ++ [.task 1]) ∧
    Inserted (fun e => e.name ≠ "stack") a.root.children a'.root.children ∧
    (1, .ok (.frames stackFrames)) ∈
      (run {} (responded (.getStack none) stackReply ++ [.task 1])).finished ∧
    ∀ result, (1, result) ∈
        (run {} (responded (.getStack none) stackReplyRefused ++ [.task 1])).finished ↔
      result = .error (.remote 5 "command is not available") := by
  obtain ⟨a, hget, hchildren⟩ := concludes_stackReply
  obtain ⟨hframes, hfine⟩ := ofResponse_stackTags hchildren
  have h : obtainsSuch
      (fun a => listsLeaves (stackTags.take 2 ++ ("error", [("code", "5")]) :: stackTags.drop 2) a &&
        a.error? = some (.remote 5 "command is not available"))
      ((run {} (responded (.getStack none) stackReplyRefused)).happenings (.task 1)) = true := by
    decide +kernel
  obtain ⟨a', hget', ha'⟩ := concludes_responded h
  rw [Bool.and_eq_true, decide_eq_true_eq] at ha'
  refine ⟨a, a', hget, hget', ?_, ?_, fun result => ?_⟩
  · rw [hchildren, children_of_listsLeaves ha'.1]
    exact .keep _ (.keep _ (.add (by decide) (.keep _ .nil)))
  · rw [hget.reports_frames hfine, hframes]
  · rw [(hget'.reports rfl rfl).2, Response.check, ha'.2]
    exact Iff.rfl

end Client

end Dbgp
