import Dbgp.Proofs.Numeral
import Dbgp.Proofs.Utf8
import Dbgp.Wire.Request

/-!
# Which requests survive the wire

The line format has no escapes, so not every request is read back as it was written. `Fits` says which
are: the command is not empty, no line of the request has a newline in it, flags begin with a dash and
arguments do not. These are all: a request that does not fit is read as another one or refused.

The way from `Fits` to the request is an induction over options and arguments. The way back counts
lines: whatever is read takes as many lines as were written, so no newline can have come in between.
-/

namespace Dbgp.Request

/-! ## Splitting into lines -/

/-- All pieces between newlines, as `splitLines` finds them. -/
def pieces (cs : List Char) : List (List Char) :=
  (splitLines cs).1 :: (splitLines cs).2

theorem pieces_nil : pieces [] = [[]] := rfl

/-- The `pieces` after a newline at the beginning, which ends an empty piece. -/
theorem pieces_newline (cs : List Char) : pieces ('\n' :: cs) = [] :: pieces cs := by
  simp only [pieces, splitLines, if_true]

/-- The `pieces` after any other character, which belongs to the first piece. -/
theorem pieces_cons {c : Char} (hc : c ≠ '\n') (cs : List Char) :
    pieces (c :: cs) = (c :: (splitLines cs).1) :: (splitLines cs).2 := by
  simp only [pieces, splitLines, hc, if_false]

/-- A newline separates the `pieces` before it from those after it. -/
theorem pieces_append_newline (cs ds : List Char) :
    pieces (cs ++ '\n' :: ds) = pieces cs ++ pieces ds := by
  induction cs with
  | nil => rw [List.nil_append, pieces_newline, pieces_nil, List.singleton_append]
  | cons c cs ih =>
    rw [List.cons_append]
    by_cases hc : c = '\n'
    · rw [hc, pieces_newline, pieces_newline, ih, List.cons_append]
    · rw [pieces, pieces, List.cons_append, List.cons.injEq] at ih
      rw [pieces_cons hc, pieces_cons hc, ih.1, ih.2, List.cons_append]

/-- There is one of the `pieces` more than there are newlines. -/
theorem length_pieces (cs : List Char) : (pieces cs).length = cs.count '\n' + 1 := by
  induction cs with
  | nil => rfl
  | cons c cs ih =>
    by_cases hc : c = '\n'
    · rw [hc, pieces_newline, List.length_cons, ih, List.count_cons_self]
    · rw [pieces_cons hc, List.count_cons_of_ne hc, ← ih]
      rfl

/-- Splitting into `pieces` loses nothing but newlines. -/
theorem flatMap_pieces (cs : List Char) : ((pieces cs).flatMap fun m => m ++ ['\n']) = cs ++ ['\n'] := by
  induction cs with
  | nil => rfl
  | cons c cs ih =>
    by_cases hc : c = '\n'
    · rw [hc, pieces_newline, List.flatMap_cons, ih]
      rfl
    · rw [pieces, List.flatMap_cons] at ih
      rw [pieces_cons hc, List.flatMap_cons, List.cons_append, List.cons_append, ih, List.cons_append]

/-- A text without a newline is its only one of `pieces`. -/
theorem pieces_of_not_mem {cs : List Char} (h : '\n' ∉ cs) : pieces cs = [cs] := by
  induction cs with
  | nil => rfl
  | cons c cs ih =>
    rw [List.mem_cons, not_or] at h
    obtain ⟨hfirst, hrest⟩ := List.cons.inj (ih h.2)
    rw [pieces_cons (Ne.symm h.1), hfirst, hrest]

/-- Lines as they stand between newlines: the first one, and the others after a newline each; `pieces`
takes them apart. -/
def body (l : List Char) (ls : List (List Char)) : List Char :=
  l ++ ls.flatMap fun m => '\n' :: m

/-- Lines that each end with a newline are the `body` and a last newline. -/
theorem flatMap_newline (l : List Char) (ls : List (List Char)) :
    ((l :: ls).flatMap fun m => m ++ ['\n']) = body l ls ++ ['\n'] := by
  induction ls generalizing l with
  | nil => simp [body]
  | cons m ls ih =>
    rw [List.flatMap_cons, ih m, body, body, List.flatMap_cons]
    simp

/-- The `pieces` of lines are the pieces of each. -/
theorem pieces_body (l : List Char) (ls : List (List Char)) :
    pieces (body l ls) = (l :: ls).flatMap pieces := by
  induction ls generalizing l with
  | nil => simp [body]
  | cons m ls ih =>
    have hbody : body l (m :: ls) = l ++ '\n' :: body m ls := by
      rw [body, List.flatMap_cons, List.cons_append, body]
    rw [hbody, pieces_append_newline, ih m]
    rfl

/-- Lines without newlines are their own `pieces`. -/
theorem flatMap_pieces_of_not_mem {ls : List (List Char)} (h : ∀ l ∈ ls, '\n' ∉ l) :
    ls.flatMap pieces = ls := by
  induction ls with
  | nil => rfl
  | cons l ls ih =>
    rw [List.forall_mem_cons] at h
    rw [List.flatMap_cons, pieces_of_not_mem h.1, ih h.2, List.singleton_append]

/-- As many `pieces` as lines means that no line has a newline in it. -/
theorem not_mem_of_length_flatMap_pieces {ls : List (List Char)}
    (h : (ls.flatMap pieces).length ≤ ls.length) : ∀ l ∈ ls, '\n' ∉ l := by
  induction ls with
  | nil => simp
  | cons l ls ih =>
    have hge : ∀ ks : List (List Char), ks.length ≤ (ks.flatMap pieces).length := by
      intro ks
      induction ks with
      | nil => simp
      | cons k ks ih =>
        rw [List.flatMap_cons, List.length_append, length_pieces, List.length_cons]
        omega
    have hls := hge ls
    rw [List.flatMap_cons, List.length_append, length_pieces, List.length_cons] at h
    rw [List.forall_mem_cons]
    refine ⟨?_, ih (by omega)⟩
    rw [← List.count_eq_zero]
    omega

/-! ## Sorting lines -/

/-- Whether `sortLines` reads a line as the flag of an option. -/
def isFlag (line : List Char) : Bool :=
  line.head? = some '-'

/-- The line after a flag is the value of the option for `sortLines`, whatever it looks like. -/
theorem sortLines_option {flag : List Char} (hflag : isFlag flag) (value : List Char)
    (rest : List (List Char)) :
    sortLines (flag :: value :: rest) = (sortLines rest).map fun (options, arguments) =>
      ((String.ofList flag, String.ofList value) :: options, arguments) := by
  match flag, hflag with
  | c :: cs, h =>
    have hc : c = '-' := by simpa [isFlag] using h
    subst hc
    rw [sortLines]
    cases sortLines rest <;> rfl

/-- A line that is no flag is an argument to `sortLines`. -/
theorem sortLines_argument {line : List Char} (hline : isFlag line = false)
    (rest : List (List Char)) :
    sortLines (line :: rest) = (sortLines rest).map fun (options, arguments) =>
      (options, String.ofList line :: arguments) := by
  have hdash : ∀ flag, line ≠ '-' :: flag := by
    rintro flag rfl
    simp [isFlag] at hline
  rw [sortLines]
  · cases sortLines rest <;> rfl
  · exact fun flag h _ => hdash flag h
  · exact fun flag _ _ h _ => hdash flag h

/-- Options and arguments that `isFlag` can tell apart are sorted as they were. -/
theorem sortLines_flatMap {options : List (String × String)} {arguments : List String}
    (hoptions : ∀ o ∈ options, isFlag o.1.toList) (harguments : ∀ a ∈ arguments, isFlag a.toList = false) :
    sortLines ((options.flatMap fun o => [o.1.toList, o.2.toList]) ++ arguments.map String.toList)
      = .ok (options, arguments) := by
  induction options with
  | nil =>
    rw [List.flatMap_nil, List.nil_append]
    induction arguments with
    | nil => rfl
    | cons a arguments ih =>
      rw [List.forall_mem_cons] at harguments
      rw [List.map_cons, sortLines_argument harguments.1, ih harguments.2, String.ofList_toList]
      rfl
  | cons o options ih =>
    rw [List.forall_mem_cons] at hoptions
    simp only [List.flatMap_cons, List.cons_append, List.nil_append]
    rw [sortLines_option hoptions.1, ih hoptions.2, String.ofList_toList, String.ofList_toList]
    rfl

/-- What `sortLines` does, line by line. -/
inductive Sorts : List (List Char) → List (String × String) → List String → Prop
  | done : Sorts [] [] []
  | option {flag value : List Char} {rest : List (List Char)} {options : List (String × String)}
      {arguments : List String} : isFlag flag → Sorts rest options arguments →
      Sorts (flag :: value :: rest) ((String.ofList flag, String.ofList value) :: options) arguments
  | argument {line : List Char} {rest : List (List Char)} {options : List (String × String)}
      {arguments : List String} : isFlag line = false → Sorts rest options arguments →
      Sorts (line :: rest) options (String.ofList line :: arguments)

/-- What `sortLines` gives is as `Sorts` says. -/
theorem sorts_of_sortLines {lines : List (List Char)} {options : List (String × String)}
    {arguments : List String} (h : sortLines lines = .ok (options, arguments)) :
    Sorts lines options arguments := by
  induction lines using sortLines.induct generalizing options arguments with
  | case1 =>
    cases h
    exact .done
  | case2 flag => cases h
  | case3 flag value rest ih =>
    have hflag : isFlag ('-' :: flag) := by simp [isFlag]
    rw [sortLines_option hflag] at h
    cases hrest : sortLines rest with
    | error f => rw [hrest] at h; cases h
    | ok sorted =>
      rw [hrest] at h
      cases h
      exact .option hflag (ih hrest)
  | case4 line rest hone hmany ih =>
    -- With a dash the line would have been a flag, with or without a line after it.
    have hline : isFlag line = false := by
      match line with
      | [] => rfl
      | c :: cs =>
        rw [isFlag, List.head?_cons, decide_eq_false_iff_not, Option.some.injEq]
        rintro rfl
        cases rest with
        | nil => exact hone cs rfl rfl
        | cons value rest => exact hmany cs value rest rfl rfl
    rw [sortLines_argument hline] at h
    cases hrest : sortLines rest with
    | error f => rw [hrest] at h; cases h
    | ok sorted =>
      rw [hrest] at h
      cases h
      exact .argument hline (ih hrest)

/-- What `Sorts` says about the lines: each is used once, flags have their dash, arguments have
none. -/
structure Sorted (lines : List (List Char)) (options : List (String × String))
    (arguments : List String) : Prop where
  kept : lines.Perm
    ((options.flatMap fun o => [o.1.toList, o.2.toList]) ++ arguments.map String.toList)
  flags : ∀ o ∈ options, isFlag o.1.toList
  arguments : ∀ a ∈ arguments, isFlag a.toList = false

/-- `Sorts` implies `Sorted`. -/
theorem Sorts.sorted {lines : List (List Char)} {options : List (String × String)}
    {arguments : List String} (h : Sorts lines options arguments) : Sorted lines options arguments := by
  induction h with
  | done => exact ⟨.nil, by simp, by simp⟩
  | option hflag _ ih =>
    refine ⟨?_, ?_, ih.arguments⟩
    · rw [List.flatMap_cons, String.toList_ofList, String.toList_ofList]
      exact (ih.kept.cons _).cons _
    · rw [List.forall_mem_cons, String.toList_ofList]
      exact ⟨hflag, ih.flags⟩
  | argument hline _ ih =>
    refine ⟨?_, ih.flags, ?_⟩
    · rw [List.map_cons, String.toList_ofList]
      exact (ih.kept.cons _).trans List.perm_middle.symm
    · rw [List.forall_mem_cons, String.toList_ofList]
      exact ⟨hline, ih.arguments⟩

/-! ## One request -/

/-- `dropLastIf` drops what it is asked to drop. -/
theorem dropLastIf_append [DecidableEq α] (as : List α) (a : α) : dropLastIf a (as ++ [a]) = as := by
  rw [dropLastIf, List.getLast?_concat, if_pos rfl, List.dropLast_concat]

/-- The transaction id that options give: the value of the first option `-i`, if it is a number. -/
def named? (options : List (String × String)) : Option UInt32 :=
  (options.find? fun o => o.1 = transactionFlag).bind fun o => Text.Numeral.word32? o.2.toList

/-- When `decodeChars` reads characters as a request. -/
theorem decodeChars_eq_ok_iff {cs first : List Char} {rest : List (List Char)} {q : Request}
    (h : pieces (dropLastIf '\n' cs) = first :: rest) :
    decodeChars cs = .ok q ↔
      first ≠ [] ∧ String.ofList first = q.command ∧ sortLines rest = .ok (q.options, q.arguments) ∧
        named? q.options = some q.transaction ∧ q.isAsync = false := by
  obtain ⟨hfirst, hrest⟩ := List.cons.inj h
  have hsplit : splitLines (dropLastIf '\n' cs) = (first, rest) := Prod.ext hfirst hrest
  rw [decodeChars, hsplit]
  cases first with
  | nil => simp
  | cons c first =>
    cases hsort : sortLines rest with
    | error f => simp [bind, Except.bind, hsort]
    | ok sorted =>
      obtain ⟨options, arguments⟩ := sorted
      obtain ⟨command, transaction, options', arguments', isAsync⟩ := q
      have hnamed : ((options.find? fun o => o.1 = transactionFlag).bind fun o =>
          Text.Numeral.word32? o.2.toList) = named? options := rfl
      simp only [bind, Except.bind, hsort, hnamed]
      cases hn : named? options with
      | none =>
        simp only [reduceCtorEq, false_iff, not_and, Except.ok.injEq, Prod.mk.injEq]
        rintro - - ⟨rfl, -⟩ h
        rw [hn] at h
        cases h
      | some t =>
        simp only [Except.ok.injEq, Request.mk.injEq, Prod.mk.injEq, ne_eq, reduceCtorEq,
          not_false_eq_true, true_and]
        constructor
        · rintro ⟨rfl, rfl, rfl, rfl, rfl⟩
          exact ⟨rfl, ⟨rfl, rfl⟩, hn, rfl⟩
        · rintro ⟨rfl, ⟨rfl, rfl⟩, h, rfl⟩
          rw [hn, Option.some.injEq] at h
          exact ⟨rfl, h, rfl, rfl, rfl⟩

/-- Octets that `decode` reads as a request are a text that `decodeChars` reads as one. -/
theorem decodeChars_of_decode {bytes : List UInt8} {r : Request} (h : decode bytes = .ok r) :
    ∃ cs, Text.Utf8.decode (dropLastIf 0 bytes) = .ok cs ∧ decodeChars cs = .ok r := by
  unfold decode at h
  split at h
  · cases h
  · next cs hcs => exact ⟨cs, hcs, h⟩

/-- `decode` of the octets of a request: their NUL goes, and the rest are its lines. -/
theorem decode_encode (r : Request) :
    decode r.encode = decodeChars (r.lines.flatMap fun l => l.toList ++ ['\n']) := by
  have hnul : Text.Utf8.encodeChars ['\x00'] = [0] := by decide
  rw [decode, encode, encodeChars, Text.Utf8.encodeChars_append, hnul, dropLastIf_append,
    Text.Utf8.decode_encodeChars]

/-- The `pieces` that reading finds in a request are those of its lines. -/
theorem pieces_lines (r : Request) :
    pieces (dropLastIf '\n' (r.lines.flatMap fun l => l.toList ++ ['\n']))
      = (r.lines.map String.toList).flatMap pieces := by
  have hlines : (r.lines.flatMap fun l => l.toList ++ ['\n'])
      = (r.lines.map String.toList).flatMap fun m => m ++ ['\n'] := by
    rw [List.flatMap_map]
  rw [hlines, lines, List.cons_append, List.map_cons, flatMap_newline, dropLastIf_append, pieces_body]

/-- The `lines` of a request: its command, its options and its arguments. -/
theorem lines_map_toList (r : Request) :
    r.lines.map String.toList = r.command.toList ::
      ((r.options.flatMap fun o => [o.1.toList, o.2.toList]) ++ r.arguments.map String.toList) := by
  rw [lines, List.cons_append, List.map_cons, List.map_append, List.map_flatMap]
  rfl

/-- Reading by `decodeChars` uses every piece once. -/
theorem pieces_perm_lines {cs : List Char} {r : Request} (h : decodeChars cs = .ok r) :
    (pieces (dropLastIf '\n' cs)).Perm (r.lines.map String.toList) := by
  obtain ⟨-, hcommand, hsort, -, -⟩ := (decodeChars_eq_ok_iff rfl).mp h
  rw [lines_map_toList, pieces, ← hcommand, String.toList_ofList]
  exact (sorts_of_sortLines hsort).sorted.kept.cons _

/-- What holds of all `lines` holds of the command, the options and the arguments. -/
theorem forall_mem_lines {r : Request} {p : String → Prop} :
    (∀ l ∈ r.lines, p l) ↔
      p r.command ∧ (∀ o ∈ r.options, p o.1 ∧ p o.2) ∧ ∀ a ∈ r.arguments, p a := by
  rw [lines, List.cons_append, List.forall_mem_cons, List.forall_mem_append, List.forall_mem_flatMap]
  simp only [List.forall_mem_cons, List.not_mem_nil, false_implies, implies_true, and_true]

/-- What a request needs for `decode` to read it back as it was written, its transaction id aside. -/
structure Fits (r : Request) : Prop where
  command : r.command ≠ ""
  newline : ∀ l ∈ r.lines, '\n' ∉ l.toList
  flags : ∀ o ∈ r.options, isFlag o.1.toList
  arguments : ∀ a ∈ r.arguments, isFlag a.toList = false

instance (r : Request) : Decidable r.Fits :=
  decidable_of_iff (r.command ≠ "" ∧ (∀ l ∈ r.lines, '\n' ∉ l.toList) ∧
      (∀ o ∈ r.options, isFlag o.1.toList) ∧ ∀ a ∈ r.arguments, isFlag a.toList = false)
    ⟨fun ⟨hc, hn, hf, ha⟩ => ⟨hc, hn, hf, ha⟩, fun ⟨hc, hn, hf, ha⟩ => ⟨hc, hn, hf, ha⟩⟩

/-- The lines of a request that fits are the `pieces` that reading finds. -/
theorem Fits.pieces_eq {r : Request} (h : r.Fits) :
    pieces (dropLastIf '\n' (r.lines.flatMap fun l => l.toList ++ ['\n'])) = r.command.toList ::
      ((r.options.flatMap fun o => [o.1.toList, o.2.toList]) ++ r.arguments.map String.toList) := by
  rw [pieces_lines, flatMap_pieces_of_not_mem, lines_map_toList]
  rw [List.forall_mem_map]
  exact h.newline

/-- A request that `Fits` is read back. -/
theorem Fits.decode_encode {r : Request} (h : r.Fits) (hnamed : named? r.options = some r.transaction) :
    decode r.encode = .ok { r with isAsync := false } := by
  rw [Request.decode_encode, decodeChars_eq_ok_iff h.pieces_eq]
  refine ⟨?_, String.ofList_toList, sortLines_flatMap h.flags h.arguments, hnamed, rfl⟩
  exact fun hnil => h.command (String.toList_eq_nil_iff.mp hnil)

/-- Characters are read as a request that `Fits` as soon as there is no newline in it. -/
theorem fits_of_decodeChars {cs : List Char} {r : Request} (h : decodeChars cs = .ok r)
    (hnewline : ∀ l ∈ r.lines, '\n' ∉ l.toList) : r.Fits := by
  obtain ⟨hfirst, hcommand, hsort, -, -⟩ := (decodeChars_eq_ok_iff rfl).mp h
  have hsorted := (sorts_of_sortLines hsort).sorted
  refine ⟨?_, hnewline, hsorted.flags, hsorted.arguments⟩
  intro hempty
  rw [hempty] at hcommand
  exact hfirst (String.ofList_eq_empty_iff.mp hcommand)

/-- A request that is read back `Fits`. Reading uses every piece once, so there are no more pieces
than lines. -/
theorem fits_of_decode_encode {r : Request}
    (h : decode r.encode = .ok { r with isAsync := false }) : r.Fits := by
  rw [Request.decode_encode] at h
  have hlength : ((r.lines.map String.toList).flatMap pieces).length ≤
      (r.lines.map String.toList).length := by
    rw [← pieces_lines]
    exact Nat.le_of_eq (pieces_perm_lines h).length_eq
  have hnewline := not_mem_of_length_flatMap_pieces hlength
  rw [List.forall_mem_map] at hnewline
  obtain ⟨hcommand, hnewline, hflags, harguments⟩ := fits_of_decodeChars h hnewline
  exact ⟨hcommand, hnewline, hflags, harguments⟩

/-! ## Requests that are built -/

/-- What can be added to a `Request`. -/
inductive Addition where
  | option (flag value : String)
  | optional (flag : String) (value : Option String)
  | argument (text : String)
  deriving DecidableEq, Repr

/-- Adds to a request, by `withOption`, `withOptional` or `withArgument`. -/
def add (r : Request) : Addition → Request
  | .option flag value => r.withOption flag value
  | .optional flag value => r.withOptional flag value
  | .argument text => r.withArgument text

/-- A request that is begun by `new` or `newAsync` and added to. -/
def build (isAsync : Bool) (command : String) (transaction : UInt32) (additions : List Addition) :
    Request :=
  additions.foldl add (if isAsync then newAsync command transaction else new command transaction)

/-- The first of the `options` names the transaction. -/
def Tagged (r : Request) : Prop :=
  ∃ options, r.options = (transactionFlag, Text.Numeral.write r.transaction.toNat) :: options

/-- A request that is `Tagged` is read with its transaction id. -/
theorem Tagged.named? {r : Request} (h : r.Tagged) : named? r.options = some r.transaction := by
  obtain ⟨options, hoptions⟩ := h
  rw [hoptions, Request.named?, List.find?_cons_of_pos (by simp), Option.bind_some,
    Text.Numeral.word32?_write]

/-- A request that is begun by `new` is `Tagged`. -/
theorem tagged_new (command : String) (t : UInt32) : (new command t).Tagged :=
  ⟨[], rfl⟩

/-- A request stays `Tagged` with whatever is added. -/
theorem Tagged.add {r : Request} (h : r.Tagged) (a : Addition) : (r.add a).Tagged := by
  obtain ⟨options, hoptions⟩ := h
  match a with
  | .option flag value => exact ⟨options ++ [(flag, value)], by simp [Request.add, withOption, hoptions]⟩
  | .optional flag none => exact ⟨options, hoptions⟩
  | .optional flag (some value) =>
    exact ⟨options ++ [(flag, value)], by simp [Request.add, withOptional, withOption, hoptions]⟩
  | .argument text => exact ⟨options, hoptions⟩

/-- Every request that `build` gives is `Tagged`. -/
theorem tagged_build (isAsync : Bool) (command : String) (t : UInt32) (additions : List Addition) :
    (build isAsync command t additions).Tagged := by
  have hstart : (if isAsync then newAsync command t else new command t).Tagged := by
    cases isAsync
    · exact tagged_new command t
    · exact tagged_new command t
  rw [build]
  generalize (if isAsync then newAsync command t else new command t) = r at hstart
  induction additions generalizing r with
  | nil => exact hstart
  | cons a additions ih => exact ih _ (hstart.add a)

/-- A request is read back as it was built, except for whether it has a response, exactly when its
command is not empty, nothing in it has a newline, its flags begin with a dash and its arguments do
not. -/
theorem decode_encode_build_iff (isAsync : Bool) (command : String) (t : UInt32)
    (additions : List Addition) :
    let r := build isAsync command t additions
    decode r.encode = .ok { r with isAsync := false } ↔
      r.command ≠ "" ∧
        ('\n' ∉ r.command.toList ∧ (∀ o ∈ r.options, '\n' ∉ o.1.toList ∧ '\n' ∉ o.2.toList) ∧
          ∀ a ∈ r.arguments, '\n' ∉ a.toList) ∧
        (∀ o ∈ r.options, o.1.toList.head? = some '-') ∧
        ∀ a ∈ r.arguments, a.toList.head? ≠ some '-' := by
  intro r
  have hround : decode r.encode = .ok { r with isAsync := false } ↔ r.Fits :=
    ⟨fits_of_decode_encode, fun h => h.decode_encode (tagged_build isAsync command t additions).named?⟩
  have hflag : ∀ s : String, isFlag s.toList = true ↔ s.toList.head? = some '-' :=
    fun s => decide_eq_true_iff
  have hargument : ∀ s : String, isFlag s.toList = false ↔ s.toList.head? ≠ some '-' :=
    fun s => decide_eq_false_iff_not
  rw [hround]
  constructor
  · rintro ⟨hcommand, hnewline, hflags, harguments⟩
    exact ⟨hcommand, forall_mem_lines.mp hnewline, fun o ho => (hflag o.1).mp (hflags o ho),
      fun a ha => (hargument a).mp (harguments a ha)⟩
  · rintro ⟨hcommand, hnewline, hflags, harguments⟩
    exact ⟨hcommand, forall_mem_lines.mpr hnewline, fun o ho => (hflag o.1).mpr (hflags o ho),
      fun a ha => (hargument a).mpr (harguments a ha)⟩

/-- Empty values and arguments, values with a dash and NUL characters do no harm. -/
example :
    (build true "x" 7 [.option "-" "", .optional "-d" (some "-1"), .argument "a\x00",
      .argument ""]).Fits := by decide

end Dbgp.Request
