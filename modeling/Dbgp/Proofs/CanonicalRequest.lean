import Dbgp.Proofs.RequestStream
import Mathlib.Data.List.Basic

/-!
# The written form of what is read

Reading accepts more than writing produces: the NUL and the last newline may be missing, options may
stand among arguments, and the transaction id may stand anywhere and be written in several ways. What is
read is a request that fits all the same, so it is read back from its written form (`fits_of_decode`).

Which octets are that written form is a matter of the order of lines. `roles` says what each line is read
as; octets are written back as they were exactly when they end like a written request and no option
comes after an argument.
-/

namespace Dbgp.Request

/-! ## What is read fits -/

/-- There is no newline in one of the `pieces`. -/
theorem newline_not_mem_pieces {cs l : List Char} (h : l ∈ pieces cs) : '\n' ∉ l := by
  induction cs generalizing l with
  | nil =>
    rw [pieces_nil, List.mem_singleton] at h
    simp [h]
  | cons c cs ih =>
    by_cases hc : c = '\n'
    · rw [hc, pieces_newline, List.mem_cons] at h
      obtain rfl | h := h
      · simp
      · exact ih h
    · rw [pieces_cons hc, List.mem_cons] at h
      obtain rfl | h := h
      · rw [List.mem_cons, not_or]
        exact ⟨Ne.symm hc, ih List.mem_cons_self⟩
      · exact ih (List.mem_cons_of_mem _ h)

/-- What `decode` reads `Fits`, whatever it was read from. -/
theorem fits_of_decode {bytes : List UInt8} {r : Request} (h : decode bytes = .ok r) : r.Fits := by
  obtain ⟨cs, -, hcs⟩ := decodeChars_of_decode h
  refine fits_of_decodeChars hcs fun l hl => ?_
  have hpiece := (pieces_perm_lines hcs).mem_iff.mpr (List.mem_map_of_mem (f := String.toList) hl)
  exact newline_not_mem_pieces hpiece

/-! ## The order of lines -/

/-- What `sortLines` reads a line after the command as. -/
inductive Role where
  | flag
  | value
  | argument
  deriving DecidableEq, Repr

/-- What lines are read as, by `Role`: the line after a flag is its value, whatever it looks like. -/
def roles : List (List Char) → List Role
  | [] => []
  | [line] => if isFlag line then [.flag] else [.argument]
  | line :: value :: rest =>
    if isFlag line then .flag :: .value :: roles rest else .argument :: roles (value :: rest)

/-- No option comes after an argument, by the `roles` of the lines. -/
def OptionsFirst (lines : List (List Char)) : Prop :=
  (roles lines).Pairwise fun earlier later => ¬(earlier = .argument ∧ later = .flag)

instance (lines : List (List Char)) : Decidable (OptionsFirst lines) :=
  inferInstanceAs (Decidable (List.Pairwise _ _))

/-- The `roles` of an option. -/
theorem roles_option {flag : List Char} (hflag : isFlag flag) (value : List Char)
    (rest : List (List Char)) : roles (flag :: value :: rest) = .flag :: .value :: roles rest := by
  rw [roles, if_pos hflag]

/-- The `roles` of lines that begin with an argument. -/
theorem roles_argument {line : List Char} (hline : isFlag line = false) (rest : List (List Char)) :
    roles (line :: rest) = .argument :: roles rest := by
  cases rest with
  | nil => simp [roles, hline]
  | cons value rest => simp [roles, hline]

section

variable {lines : List (List Char)} {options : List (String × String)} {arguments : List String}

/-- By `Sorts`, there is an option for every flag. -/
theorem Sorts.count_flag (h : Sorts lines options arguments) :
    (roles lines).count .flag = options.length := by
  induction h with
  | done => rfl
  | option hflag _ ih => rw [roles_option hflag, List.count_cons_self, List.count_cons_of_ne (by decide),
      ih, List.length_cons]
  | argument hline _ ih => rw [roles_argument hline, List.count_cons_of_ne (by decide), ih]

/-- Lines that have `OptionsFirst` are left in their order. -/
theorem Sorts.eq_append (h : Sorts lines options arguments) (hfirst : OptionsFirst lines) :
    lines = (options.flatMap fun o => [o.1.toList, o.2.toList]) ++ arguments.map String.toList := by
  induction h with
  | done => rfl
  | option hflag _ ih =>
    rw [OptionsFirst, roles_option hflag] at hfirst
    rw [List.flatMap_cons, String.toList_ofList, String.toList_ofList]
    exact congrArg (fun rest => _ :: _ :: rest) (ih hfirst.of_cons.of_cons)
  | @argument line rest options arguments hline hrest ih =>
    rw [OptionsFirst, roles_argument hline, List.pairwise_cons] at hfirst
    -- After an argument there is no flag, so there are no options at all.
    have hnone : options = [] := by
      rw [← List.length_eq_zero_iff, ← hrest.count_flag, List.count_eq_zero]
      exact fun hmem => hfirst.1 .flag hmem ⟨rfl, rfl⟩
    have hsame := ih hfirst.2
    subst hnone
    rw [List.flatMap_nil, List.nil_append, List.map_cons, String.toList_ofList]
    exact congrArg _ hsame

/-- The `roles` of options that are followed by arguments. -/
theorem roles_append (hoptions : ∀ o ∈ options, isFlag o.1.toList)
    (harguments : ∀ a ∈ arguments, isFlag a.toList = false) :
    roles ((options.flatMap fun o => [o.1.toList, o.2.toList]) ++ arguments.map String.toList) =
      (options.flatMap fun _ => [.flag, .value]) ++ List.replicate arguments.length .argument := by
  induction options with
  | nil =>
    rw [List.flatMap_nil, List.flatMap_nil, List.nil_append, List.nil_append]
    induction arguments with
    | nil => rfl
    | cons a arguments ih =>
      rw [List.forall_mem_cons] at harguments
      rw [List.map_cons, roles_argument harguments.1, ih harguments.2, List.length_cons,
        List.replicate_succ]
  | cons o options ih =>
    rw [List.forall_mem_cons] at hoptions
    rw [List.flatMap_cons, List.flatMap_cons, List.append_assoc, List.append_assoc, ← ih hoptions.2]
    exact roles_option hoptions.1 _ _

/-- Options that are followed by arguments have `OptionsFirst`. -/
theorem optionsFirst_append (hoptions : ∀ o ∈ options, isFlag o.1.toList)
    (harguments : ∀ a ∈ arguments, isFlag a.toList = false) :
    OptionsFirst ((options.flatMap fun o => [o.1.toList, o.2.toList]) ++ arguments.map String.toList) := by
  have hearlier : ∀ role ∈ (options.flatMap fun _ => [Role.flag, .value]), role ≠ .argument := by
    intro role hrole
    obtain ⟨o, -, ho⟩ := List.mem_flatMap.mp hrole
    rintro rfl
    simp at ho
  have hlater : ∀ role ∈ List.replicate arguments.length Role.argument, role ≠ .flag := by
    intro role hrole
    rw [List.eq_of_mem_replicate hrole]
    decide
  rw [OptionsFirst, roles_append hoptions harguments, List.pairwise_append]
  exact ⟨List.pairwise_of_forall_mem_list fun _ hx _ _ h => hearlier _ hx h.1,
    List.pairwise_of_forall_mem_list fun _ _ _ hy h => hlater _ hy h.2,
    fun _ hx _ _ h => hearlier _ hx h.1⟩

end

/-! ## The written form -/

/-- The lines after the command, by `splitLines`, without the NUL and the newline that may end them.
Octets that are no text have none. -/
def furtherLines (bytes : List UInt8) : List (List Char) :=
  match Text.Utf8.decode (dropLastIf 0 bytes) with
  | .ok cs => (splitLines (dropLastIf '\n' cs)).2
  | .error _ => []

/-- The `furtherLines` of octets that are a text. -/
theorem furtherLines_eq {bytes : List UInt8} {cs : List Char}
    (h : Text.Utf8.decode (dropLastIf 0 bytes) = .ok cs) :
    furtherLines bytes = (splitLines (dropLastIf '\n' cs)).2 := by
  rw [furtherLines, h]

/-- A text that is written with a newline octet at its end has a newline there. -/
theorem exists_append_newline {cs : List Char} {front : List UInt8}
    (h : Text.Utf8.encodeChars cs = front ++ [10]) : ∃ body, cs = body ++ ['\n'] := by
  obtain rfl | ⟨body, c, rfl⟩ := List.eq_nil_or_concat' cs
  · cases front <;> cases h
  · have hlast : (String.utf8EncodeChar c).getLast? = some 10 := by
      have hend := congrArg List.getLast? h
      rw [Text.Utf8.encodeChars_append, Text.Utf8.encodeChars_cons, Text.Utf8.encodeChars_nil,
        List.append_nil, List.getLast?_append_of_ne_nil _ String.utf8EncodeChar_ne_nil,
        List.getLast?_concat] at hend
      exact hend
    have hc : c = Char.ofNat (10 : UInt8).toNat :=
      (Text.Utf8.mem_encodeChar (by decide)).mp (List.mem_of_getLast? hlast)
    exact ⟨body, by rw [hc]; rfl⟩

/-- What `encode` writes ends with a newline and the NUL. -/
theorem suffix_encode (r : Request) : [10, 0] <:+ r.encode := by
  have hnewline : Text.Utf8.encodeChars ['\n'] = [10] := by decide
  rw [encode_eq, content_eq, lines_map_toList, flatMap_newline, Text.Utf8.encodeChars_append, hnewline,
    List.append_assoc]
  exact List.suffix_append _ _

/-- In a written request that `Fits`, options come first (`OptionsFirst`). -/
theorem Fits.optionsFirst_encode {r : Request} (h : r.Fits) : OptionsFirst (furtherLines r.encode) := by
  have hread : Text.Utf8.decode (dropLastIf 0 r.encode) =
      .ok (r.lines.flatMap fun l => l.toList ++ ['\n']) := by
    rw [encode_eq, dropLastIf_append, content, Text.Utf8.decode_encodeChars]
  rw [furtherLines_eq hread, (List.cons.inj h.pieces_eq).2]
  exact optionsFirst_append h.flags h.arguments

/-- Octets that end like a written request and have `OptionsFirst` are written back as they were. -/
theorem encode_of_optionsFirst {front : List UInt8} {r : Request}
    (h : decode (front ++ [10, 0]) = .ok r) (hfirst : OptionsFirst (furtherLines (front ++ [10, 0]))) :
    r.encode = front ++ [10, 0] := by
  obtain ⟨cs, hcs, hread⟩ := decodeChars_of_decode h
  have hend : dropLastIf 0 (front ++ [10, 0]) = front ++ [10] := by
    rw [← dropLastIf_append (front ++ [10]) 0, List.append_assoc]
    rfl
  rw [furtherLines_eq hcs] at hfirst
  rw [hend] at hcs
  have hwritten := Text.Utf8.encodeChars_of_decode hcs
  -- The last octet is the newline itself and no part of a longer character.
  obtain ⟨body, rfl⟩ := exists_append_newline hwritten
  rw [dropLastIf_append] at hfirst
  have hpieces : pieces (dropLastIf '\n' (body ++ ['\n'])) =
      (splitLines body).1 :: (splitLines body).2 := by
    rw [dropLastIf_append]
    rfl
  obtain ⟨-, hcommand, hsort, -, -⟩ := (decodeChars_eq_ok_iff hpieces).mp hread
  have hlines : r.lines.map String.toList = pieces body := by
    rw [lines_map_toList, ← hcommand, String.toList_ofList,
      ← (sorts_of_sortLines hsort).eq_append hfirst]
    rfl
  rw [encode_eq, content_eq, hlines, flatMap_pieces, hwritten, List.append_assoc]
  rfl

/-- Whatever octets are read as a request, the request is read back from its written form. The octets
are that form exactly when they end with a newline and the NUL and no option comes after an
argument. -/
theorem decode_is_canonical {bytes : List UInt8} {r : Request} (h : decode bytes = .ok r) :
    decode r.encode = .ok r ∧
      (r.encode = bytes ↔ [10, 0] <:+ bytes ∧ OptionsFirst (furtherLines bytes)) := by
  have hfits := fits_of_decode h
  constructor
  · obtain ⟨cs, -, hcs⟩ := decodeChars_of_decode h
    obtain ⟨-, -, -, hnamed, hsync⟩ := (decodeChars_eq_ok_iff rfl).mp hcs
    have hsame : { r with isAsync := false } = r := by rw [← hsync]
    rw [hfits.decode_encode hnamed, hsame]
  · constructor
    · rintro rfl
      exact ⟨r.suffix_encode, hfits.optionsFirst_encode⟩
    · rintro ⟨⟨front, rfl⟩, hfirst⟩
      exact encode_of_optionsFirst h hfirst

/-- An argument, then the transaction id `-i` in an unusual form. -/
def lateOption : List UInt8 :=
  Text.Utf8.encodeChars "x\ny\n-i\n+07\n\x00".toList

/-- `lateOption` is read as a request that is written in another way. -/
theorem decode_is_canonical_lateOption :
    let r : Request := ⟨"x", 7, [("-i", "+07")], ["y"], false⟩
    decode lateOption = .ok r ∧ [10, 0] <:+ lateOption ∧ decode r.encode = .ok r ∧
      r.encode ≠ lateOption := by
  intro r
  have htext : dropLastIf 0 lateOption = Text.Utf8.encodeChars "x\ny\n-i\n+07\n".toList := by decide
  have hread : Text.Utf8.decode (dropLastIf 0 lateOption) = .ok "x\ny\n-i\n+07\n".toList := by
    rw [htext, Text.Utf8.decode_encodeChars]
  have hdecode : decode lateOption = .ok r := by
    rw [decode, hread]
    decide
  obtain ⟨hback, hform⟩ := decode_is_canonical hdecode
  refine ⟨hdecode, by decide, hback, fun hsame => ?_⟩
  have hfirst := (hform.mp hsame).2
  rw [furtherLines_eq hread] at hfirst
  exact absurd hfirst (by decide)

end Dbgp.Request
