import Emend.Corpus.File
import Emend.Proofs.TextRepair
import Emend.Tree.Resolve
import Mathlib.Data.List.Induction

/-! Paths as texts. The text of a path names its parts one by one, so it is read back as the same path,
and the sibling through which a file is replaced lies in the same directory as the file. -/

namespace Emend

open Text

section Cutting

variable {separator : UInt16}

theorem split_separator (t : Text) : split separator (separator :: t) = [] :: split separator t := by
  simp [split]

theorem split_cons {u : UInt16} (other : u ≠ separator) {t piece : Text} {others : List Text}
    (cut : split separator t = piece :: others) : split separator (u :: t) = (u :: piece) :: others := by
  rw [split, List.foldr_cons, ← split, cut, if_neg other]

theorem split_free {piece : Text} (free : separator ∉ piece) : split separator piece = [piece] := by
  induction piece with
  | nil => rfl
  | cons u piece ih =>
    rw [List.mem_cons, not_or] at free
    exact split_cons (Ne.symm free.1) (ih free.2)

theorem split_ne_nil (t : Text) : split separator t ≠ [] := by
  induction t with
  | nil => exact List.cons_ne_nil _ _
  | cons u t ih =>
    by_cases same : u = separator
    · rw [same, split_separator]
      exact List.cons_ne_nil _ _
    · obtain ⟨piece, others, cut⟩ := List.exists_cons_of_ne_nil ih
      rw [split_cons same cut]
      exact List.cons_ne_nil _ _

theorem not_mem_of_mem_split {t piece : Text} (member : piece ∈ split separator t) : separator ∉ piece := by
  induction t generalizing piece with
  | nil =>
    obtain rfl := List.mem_singleton.mp member
    exact List.not_mem_nil
  | cons u t ih =>
    by_cases same : u = separator
    · rw [same, split_separator] at member
      rcases List.mem_cons.mp member with rfl | later
      · exact List.not_mem_nil
      · exact ih later
    · have some : split separator t ≠ [] := split_ne_nil t
      obtain ⟨first, others, cut⟩ := List.exists_cons_of_ne_nil some
      rw [split_cons same cut] at member
      rcases List.mem_cons.mp member with rfl | later
      · rw [List.mem_cons, not_or]
        exact ⟨Ne.symm same, ih (cut ▸ List.mem_cons_self)⟩
      · exact ih (cut ▸ List.mem_cons_of_mem _ later)

theorem split_between (t rest : Text) :
    split separator (t ++ separator :: rest) = split separator t ++ split separator rest := by
  induction t with
  | nil => exact split_separator rest
  | cons u t ih =>
    rw [List.cons_append]
    by_cases same : u = separator
    · rw [same, split_separator, split_separator, ih, List.cons_append]
    · obtain ⟨piece, others, cut⟩ := List.exists_cons_of_ne_nil (@split_ne_nil separator t)
      rw [cut, List.cons_append] at ih
      rw [split_cons same cut, split_cons same ih, List.cons_append]

theorem split_append {piece : Text} (free : separator ∉ piece) (t : Text) :
    split separator (piece ++ separator :: t) = piece :: split separator t := by
  rw [split_between, split_free free, List.singleton_append]

theorem split_concat {last : Text} (free : separator ∉ last) (t : Text) :
    split separator (t ++ separator :: last) = split separator t ++ [last] := by
  rw [split_between, split_free free]

theorem join_cons_cons (first second : Text) (rest : List Text) :
    join [separator] (first :: second :: rest) = first ++ separator :: join [separator] (second :: rest) := by
  simp [join, List.intercalate, List.intersperse]

theorem split_join {first : Text} {rest : List Text} (free : ∀ piece ∈ first :: rest, separator ∉ piece) :
    split separator (join [separator] (first :: rest)) = first :: rest := by
  induction rest generalizing first with
  | nil =>
    have alone : join [separator] [first] = first := by simp [join, List.intercalate, List.intersperse]
    rw [alone, split_free (free first List.mem_cons_self)]
  | cons second rest ih =>
    rw [join_cons_cons, split_append (free first List.mem_cons_self),
      ih fun piece member => free piece (List.mem_cons_of_mem _ member)]

theorem repair_join {separator : UInt16} (plain : isHalf separator = false) (pieces : List Text) :
    repair (join [separator] pieces) = join [separator] (pieces.map repair) := by
  induction pieces with
  | nil => rfl
  | cons first rest ih =>
    cases rest with
    | nil => simp [join, List.intercalate, List.intersperse]
    | cons second rest =>
      rw [join_cons_cons, repair_append_cons plain, ih]
      simp only [List.map_cons]
      rw [join_cons_cons]

end Cutting

namespace Name

theorem isValid_iff {t : Text} :
    isValid t = true ↔ t ≠ [] ∧ slash ∉ t ∧ t ≠ [dot] ∧ t ≠ [dot, dot] := by
  simp [isValid, and_assoc]

theorem text_ne_nil (name : Name) : name.text ≠ [] := (isValid_iff.mp name.valid).1

theorem slash_not_mem (name : Name) : slash ∉ name.text := (isValid_iff.mp name.valid).2.1

theorem ext {first second : Name} (same : first.text = second.text) : first = second := by
  cases first
  cases second
  cases same
  rfl

theorem isValid_repair (name : Name) : isValid (repair name.text) = true := by
  obtain ⟨occupied, flat, notDot, notDots⟩ := isValid_iff.mp name.valid
  have back : ∀ s : Text, (∀ u ∈ s, isHalf u = false ∧ u ≠ replacement) → name.text ≠ s → repair name.text ≠ s :=
    fun s plain apart same => apart (eq_of_repair_eq plain same)
  refine isValid_iff.mpr ⟨back [] (by simp) occupied, ?_, back [dot] ?_ notDot, back [dot, dot] ?_ notDots⟩
  · exact fun member => flat (mem_of_mem_repair (by decide) member)
  · intro u member
    obtain rfl := List.mem_singleton.mp member
    decide
  · intro u member
    obtain rfl : u = dot := by simpa using member
    decide

/-- A name as the file system has it. -/
def repaired (name : Name) : Name := ⟨repair name.text, name.isValid_repair⟩

end Name

namespace Path

theorem child_parent (path : Path) (name : Name) : (path.child name).parent = path := by
  simp [child, parent]

theorem child_injective {first second : Path} {name other : Name} (same : first.child name = second.child other) :
    first = second ∧ name = other := by
  obtain ⟨names⟩ := first
  obtain ⟨others⟩ := second
  simp only [child, mk.injEq] at same
  obtain ⟨rfl, tail⟩ := List.append_inj' same rfl
  exact ⟨rfl, List.cons.inj tail |>.1⟩

theorem child_ne_root (path : Path) (name : Name) : path.child name ≠ root := by
  simp [child, root]

theorem split_toText (path : Path) :
    split slash path.toText = [] :: if path.names = [] then [[]] else path.names.map Name.text := by
  obtain ⟨names⟩ := path
  rw [toText, List.singleton_append, split_separator]
  cases names with
  | nil => rfl
  | cons name names =>
    rw [if_neg (List.cons_ne_nil _ _), List.map_cons, split_join]
    intro piece member
    rw [← List.map_cons] at member
    obtain ⟨other, _, rfl⟩ := List.mem_map.mp member
    exact other.slash_not_mem

def repaired (path : Path) : Path := ⟨path.names.map Name.repaired⟩

theorem repair_toText (path : Path) : repair path.toText = path.repaired.toText := by
  rw [toText, List.singleton_append, repair_cons_plain (by decide), repair_join (by decide), List.map_map, toText,
    repaired, List.map_map]
  rfl

theorem child_repaired (path : Path) (name : Name) :
    (path.child name).repaired = path.repaired.child name.repaired := by
  simp [repaired, child]

theorem step_name (path : Path) (name : Name) : path.step name.text = path.child name := by
  have notDots := (Name.isValid_iff.mp name.valid).2.2.2
  rw [step, if_neg notDots, dif_pos name.valid]

theorem foldl_step_names (base : Path) (names : List Name) :
    (names.map Name.text).foldl step base = ⟨base.names ++ names⟩ := by
  induction names generalizing base with
  | nil => simp
  | cons name names ih => rw [List.map_cons, List.foldl_cons, step_name, ih, child, List.append_assoc]; rfl

theorem isAbsolute_toText (path : Path) : isAbsolute path.toText = true := rfl

/-- The text of a path means that path, whatever it is read against. -/
theorem resolve_toText (base path : Path) : base.resolve path.toText = path := by
  obtain ⟨names⟩ := path
  rw [resolve, isAbsolute_toText, if_pos rfl, split_toText, List.foldl_cons]
  change List.foldl step root _ = _
  cases names with
  | nil => rfl
  | cons name names =>
    rw [if_neg (List.cons_ne_nil _ _), foldl_step_names]
    rfl

def front (path : Path) : Text := slash :: path.names.flatMap fun name => name.text ++ [slash]

theorem toText_child (path : Path) (name : Name) : (path.child name).toText = path.front ++ name.text := by
  obtain ⟨names⟩ := path
  simp only [child, toText, front, List.cons_append, List.cons.injEq, true_and]
  induction names with
  | nil => simp [join, List.intercalate]
  | cons first rest ih =>
    rw [List.cons_append, List.map_cons, List.flatMap_cons, List.append_assoc, ← ih]
    cases rest <;> simp [join_cons_cons]

/-- The name of an entry goes behind the text of its directory, unless that is the root. -/
theorem toText_child_of_ne_root {path : Path} (below : path ≠ root) (name : Name) :
    (path.child name).toText = path.toText ++ slash :: name.text := by
  obtain ⟨names⟩ := path
  rcases List.eq_nil_or_concat names with rfl | ⟨above, last, rfl⟩
  · exact absurd rfl below
  · rw [List.concat_eq_append, show Path.mk (above ++ [last]) = (Path.mk above).child last from rfl, toText_child,
      toText_child]
    simp [front, child]

theorem split_front (path : Path) {last : Text} (free : slash ∉ last) :
    split slash (path.front ++ last) = [] :: (path.names.map Name.text ++ [last]) := by
  obtain ⟨names⟩ := path
  rw [front, List.cons_append, split_separator]
  congr 1
  induction names with
  | nil => exact split_free free
  | cons first rest ih =>
    simp only [List.flatMap_cons, List.append_assoc, List.cons_append, List.nil_append] at ih ⊢
    rw [split_append first.slash_not_mem, ih]
    rfl

theorem split_toText_child (path : Path) (name : Name) :
    split slash (path.child name).toText = [] :: (path.names.map Name.text ++ [name.text]) := by
  rw [toText_child, split_front path name.slash_not_mem]

end Path

theorem getLast?_filled (pieces : List Text) {last : Text} (occupied : last ≠ []) :
    ((pieces ++ [last]).filter (!·.isEmpty)).getLast? = some last := by
  have kept : [last].filter (!·.isEmpty) = [last] := List.filter_cons_of_pos (by simp [occupied])
  rw [List.filter_append, kept, List.getLast?_concat]

section

variable (path : Path) (name : Name)

theorem baseName_child : baseName (path.child name).toText = name.text := by
  rw [baseName, Path.split_toText_child, ← List.cons_append, getLast?_filled _ name.text_ne_nil, Option.getD_some]

theorem directoryPart_child : directoryPart (path.child name).toText = path.front := by
  have closed : ((path.child name).toText.reverse.dropWhile (· == slash)).reverse = (path.child name).toText := by
    rw [Path.toText_child, List.reverse_append]
    cases back : name.text.reverse with
    | nil => exact absurd (List.reverse_eq_nil_iff.mp back) name.text_ne_nil
    | cons u rest =>
      have member : u ∈ name.text := List.mem_reverse.mp (back ▸ List.mem_cons_self)
      have other : (u == slash) = false := beq_eq_false_iff_ne.mpr fun same => name.slash_not_mem (same ▸ member)
      rw [List.cons_append, List.dropWhile_cons_of_neg (by simp [other]), ← List.cons_append, ← back,
        ← List.reverse_append, List.reverse_reverse]
  have occupied : (path.child name).toText.isEmpty = false := rfl
  simp only [directoryPart, closed, baseName_child, occupied, Bool.false_eq_true, if_false]
  rw [Path.toText_child, List.length_append, Nat.add_sub_cancel, List.take_left]

end

/-- A text that ends where the name of an entry goes. -/
def Closed (front : Text) : Prop := front = [] ∨ ∃ before, front = before ++ [slash]

section

variable {front last : Text}

theorem exists_closed (t : Text) : ∃ front last, t = front ++ last ∧ Closed front ∧ slash ∉ last := by
  induction t using List.reverseRecOn with
  | nil => exact ⟨[], [], rfl, .inl rfl, List.not_mem_nil⟩
  | append_singleton t u ih =>
    by_cases same : u = slash
    · subst same
      exact ⟨t ++ [slash], [], (List.append_nil _).symm, .inr ⟨t, rfl⟩, List.not_mem_nil⟩
    · obtain ⟨front, last, rfl, closed, free⟩ := ih
      refine ⟨front, last ++ [u], List.append_assoc _ _ _, closed, ?_⟩
      rw [List.mem_append, List.mem_singleton, not_or]
      exact ⟨free, Ne.symm same⟩

theorem Closed.split (closed : Closed front) :
    ∃ pieces : List Text, (∀ piece ∈ pieces, slash ∉ piece) ∧
      ∀ last, slash ∉ last → Text.split slash (front ++ last) = pieces ++ [last] := by
  rcases closed with rfl | ⟨before, rfl⟩
  · exact ⟨[], fun piece among => absurd among List.not_mem_nil, fun last free => split_free free⟩
  · refine ⟨Text.split slash before, fun piece => not_mem_of_mem_split, fun last free => ?_⟩
    rw [List.append_assoc, List.singleton_append, split_concat free]

theorem baseName_append (closed : Closed front) (free : slash ∉ last) (occupied : last ≠ []) :
    baseName (front ++ last) = last := by
  obtain ⟨pieces, _, cut⟩ := closed.split
  rw [baseName, cut last free, getLast?_filled pieces occupied, Option.getD_some]

theorem baseName_slash (t : Text) : baseName (t ++ [slash]) = baseName t := by
  rw [baseName, split_concat List.not_mem_nil, List.filter_append, List.filter_cons_of_neg (by simp), List.filter_nil,
    List.append_nil, baseName]

theorem directoryPart_slash {t : Text} (occupied : t ≠ []) : directoryPart (t ++ [slash]) = directoryPart t := by
  have closed : ((t ++ [slash]).reverse.dropWhile (· == slash)) = t.reverse.dropWhile (· == slash) := by
    rw [List.reverse_append, List.reverse_singleton, List.singleton_append, List.dropWhile_cons_of_pos (by simp)]
  obtain ⟨u, rest, rfl⟩ := List.exists_cons_of_ne_nil occupied
  simp only [directoryPart, closed, baseName_slash]
  rfl

theorem closed_directoryPart (t : Text) : Closed (directoryPart t) := by
  induction t using List.reverseRecOn with
  | nil => exact .inl rfl
  | append_singleton t u ih =>
    by_cases same : u = slash
    · subst same
      cases t with
      | nil => exact .inr ⟨[], rfl⟩
      | cons v rest =>
        rw [directoryPart_slash (List.cons_ne_nil v rest)]
        exact ih
    · obtain ⟨front, last, rfl, closed, free⟩ := exists_closed t
      have flat : slash ∉ last ++ [u] := by
        rw [List.mem_append, List.mem_singleton, not_or]
        exact ⟨free, Ne.symm same⟩
      have kept : ((front ++ (last ++ [u])).reverse.dropWhile (· == slash)).reverse = front ++ (last ++ [u]) := by
        rw [← List.append_assoc, List.reverse_append, List.reverse_singleton, List.singleton_append,
          List.dropWhile_cons_of_neg (by simpa using same), List.reverse_cons, List.reverse_reverse]
      have filled : (front ++ (last ++ [u])).isEmpty = false := by simp
      rw [List.append_assoc]
      simp only [directoryPart, kept, filled, Bool.false_eq_true, if_false]
      rw [baseName_append closed flat (by simp), List.length_append, Nat.add_sub_cancel, List.take_left]
      exact closed

theorem slash_not_mem_baseName (t : Text) : slash ∉ baseName t := by
  rw [baseName]
  cases last : ((Text.split slash t).filter (!·.isEmpty)).getLast? with
  | none => exact List.not_mem_nil
  | some piece => exact not_mem_of_mem_split (List.mem_filter.mp (List.mem_of_getLast? last)).1

theorem normalizeStep_name (parts : List Text) (name : Name) :
    normalizeStep parts name.text = parts ++ [name.text] := by
  obtain ⟨occupied, _, notDot, notDots⟩ := Name.isValid_iff.mp name.valid
  rw [normalizeStep, if_neg (by simp [occupied, notDot]), if_neg (by simp [notDots])]

theorem foldl_normalizeStep_free (pieces parts : List Text) (free : ∀ piece ∈ pieces, slash ∉ piece)
    (flat : ∀ part ∈ parts, slash ∉ part) : ∀ part ∈ pieces.foldl normalizeStep parts, slash ∉ part := by
  induction pieces generalizing parts with
  | nil => exact flat
  | cons piece pieces ih =>
    refine ih (normalizeStep parts piece) (fun other among => free other (List.mem_cons_of_mem _ among)) ?_
    intro part among
    rw [normalizeStep] at among
    split at among
    · exact flat part among
    · split at among
      · exact flat part (List.dropLast_subset _ among)
      · rcases List.mem_append.mp among with before | last
        · exact flat part before
        · rw [List.mem_singleton.mp last]
          exact free piece List.mem_cons_self

/-- A path in normal form ends with the name with which it ended. -/
theorem baseName_normalize (closed : Closed front) (name : Name) :
    baseName (normalize (front ++ name.text)) = name.text := by
  obtain ⟨pieces, free, cut⟩ := closed.split
  rw [normalize]
  split
  · rw [Path.ofText, Path.resolve, cut name.text name.slash_not_mem, List.foldl_append, List.foldl_cons, List.foldl_nil,
      Path.step_name, baseName_child]
  · rw [cut name.text name.slash_not_mem, List.foldl_append, List.foldl_cons, List.foldl_nil, normalizeStep_name]
    have flat := foldl_normalizeStep_free pieces [] free fun part among => absurd among List.not_mem_nil
    generalize pieces.foldl normalizeStep [] = parts at flat ⊢
    have whole : ∀ part ∈ parts ++ [name.text], slash ∉ part := by
      intro part among
      rcases List.mem_append.mp among with before | last
      · exact flat part before
      · rw [List.mem_singleton.mp last]
        exact name.slash_not_mem
    have joined : Text.split slash (join [slash] (parts ++ [name.text])) = parts ++ [name.text] := by
      cases parts with
      | nil => exact split_join whole
      | cons first rest => exact split_join whole
    rw [if_neg (by simp), baseName, joined, getLast?_filled parts name.text_ne_nil, Option.getD_some]

end

namespace Corpus

/-- What a token may be: nothing in it takes part in cutting or repairing a path. -/
def isToken (token : Text) : Bool := token.all fun u => isDigit u || isLower u || u == hyphen

theorem isToken_unit {token : Text} (plain : isToken token = true) {u : UInt16} (member : u ∈ token) :
    isHalf u = false ∧ u ≠ slash ∧ u ≠ dot := by
  have unit := List.all_eq_true.mp plain u member
  simp only [isDigit, isLower, Bool.or_eq_true, Bool.and_eq_true, decide_eq_true_eq, beq_iff_eq,
    UInt16.le_iff_toNat_le, UInt16.reduceToNat] at unit
  refine ⟨?_, ?_, ?_⟩
  · cases half : isHalf u with
    | false => rfl
    | true =>
      simp only [isHalf, Bool.and_eq_true, decide_eq_true_eq, UInt16.le_iff_toNat_le, UInt16.reduceToNat] at half
      rcases unit with (digit | letter) | rfl
      · omega
      · omega
      · exact absurd half (by decide)
  · rintro rfl
    exact absurd unit (by decide)
  · rintro rfl
    exact absurd unit (by decide)

def ending (token : Text) : Text := units ".rulecast-" ++ token ++ units ".tmp"

section

variable {token : Text} (plain : isToken token = true)

include plain

theorem ending_unit {u : UInt16} (member : u ∈ ending token) : isHalf u = false ∧ u ≠ slash := by
  rw [ending, List.mem_append, List.mem_append] at member
  have fixed : (units ".rulecast-" ++ units ".tmp").all (fun v => !isHalf v && v != slash) = true := by decide
  have either : u ∈ units ".rulecast-" ++ units ".tmp" → isHalf u = false ∧ u ≠ slash := by
    intro outer
    have unit := List.all_eq_true.mp fixed u outer
    rwa [Bool.and_eq_true, Bool.not_eq_true', bne_iff_ne] at unit
  rcases member with (before | inside) | after
  · exact either (List.mem_append_left _ before)
  · exact ⟨(isToken_unit plain inside).1, (isToken_unit plain inside).2.1⟩
  · exact either (List.mem_append_right _ after)

theorem isValid_hidden {base : Text} (flat : slash ∉ base) : Name.isValid ([dot] ++ base ++ ending token) = true := by
  have long : 3 ≤ ([dot] ++ base ++ ending token).length := by
    have tail : (units ".rulecast-").length = 10 := rfl
    simp only [ending, List.length_append, List.length_singleton, tail]
    omega
  refine Name.isValid_iff.mpr ⟨?_, ?_, ?_, ?_⟩
  · exact fun same => absurd (same ▸ long) (by decide)
  · rw [List.mem_append, List.mem_append, not_or, not_or]
    exact ⟨⟨by decide, flat⟩, fun member => (ending_unit plain member).2 rfl⟩
  · exact fun same => absurd (same ▸ long) (by decide)
  · exact fun same => absurd (same ▸ long) (by decide)

theorem isValid_sibling (name : Name) : Name.isValid ([dot] ++ name.text ++ ending token) = true :=
  isValid_hidden plain name.slash_not_mem

end

def sibling (token : Text) (plain : isToken token = true) (name : Name) : Name :=
  ⟨[dot] ++ name.text ++ ending token, isValid_sibling plain name⟩

theorem sibling_repaired {token : Text} (plain : isToken token = true) (name : Name) :
    (sibling token plain name).repaired = sibling token plain name.repaired := by
  apply Name.ext
  have keep : ∀ (t : Text) (after : Text), (∀ u ∈ after, isHalf u = false) → repair (t ++ after) = repair t ++ after := by
    intro t after flat
    cases after with
    | nil => rw [List.append_nil, List.append_nil]
    | cons u after =>
      rw [repair_append_cons (flat u List.mem_cons_self),
        repair_plain fun v member => flat v (List.mem_cons_of_mem _ member)]
  show repair ([dot] ++ name.text ++ ending token) = [dot] ++ repair name.text ++ ending token
  rw [keep _ _ fun u member => (ending_unit plain member).1, List.singleton_append, List.singleton_append,
    repair_cons_plain (by decide)]

/-- The sibling through which a file is replaced lies beside the file. -/
theorem temporaryPath_child {token : Text} (plain : isToken token = true) (path : Path) (name : Name) :
    temporaryPath token (path.child name).toText = (path.child (sibling token plain name)).toText := by
  have whole : directoryPart (path.child name).toText ++ units "." ++ baseName (path.child name).toText ++
      units ".rulecast-" ++ token ++ units ".tmp" = path.front ++ (sibling token plain name).text := by
    rw [directoryPart_child, baseName_child]
    simp only [sibling, ending, List.append_assoc]
    rfl
  rw [temporaryPath, whole, ← Path.toText_child, normalize, Path.isAbsolute_toText, if_pos rfl, Path.ofText,
    Path.resolve_toText]

/-- However the path of a file is spelled, the name of its sibling goes on after the name of the file. -/
theorem baseName_temporaryPath {token : Text} (plain : isToken token = true) (t : Text) :
    baseName (temporaryPath token t) = [dot] ++ baseName t ++ ending token := by
  let name : Name := ⟨[dot] ++ baseName t ++ ending token, isValid_hidden plain (slash_not_mem_baseName t)⟩
  have whole : directoryPart t ++ units "." ++ baseName t ++ units ".rulecast-" ++ token ++ units ".tmp" =
      directoryPart t ++ name.text := by
    simp only [name, ending, List.append_assoc]
    rfl
  rw [temporaryPath, whole, baseName_normalize (closed_directoryPart t) name]

theorem temporaryPath_ne {token : Text} (plain : isToken token = true) (t : Text) : temporaryPath token t ≠ t := by
  intro same
  have lengths := congrArg List.length (baseName_temporaryPath plain t)
  rw [same, List.length_append, List.length_append, List.length_singleton] at lengths
  omega

theorem sibling_injective {token other : Text} (plain : isToken token = true) (plainToo : isToken other = true)
    {name second : Name} (same : sibling token plain name = sibling other plainToo second) : token = other := by
  have texts : [dot] ++ name.text ++ ending token = [dot] ++ second.text ++ ending other := congrArg Name.text same
  have cut (front own : Text) (flat : isToken own = true) :
      (((front ++ ending own).reverse.drop 4).takeWhile (· != dot)).reverse = units "rulecast-" ++ own := by
    have inside : ∀ u ∈ (units "rulecast-" ++ own).reverse, (u != dot) = true := by
      intro u member
      rcases List.mem_append.mp (List.mem_reverse.mp member) with before | after
      · have fixed : (units "rulecast-").all (fun v => v != dot) = true := by decide
        exact List.all_eq_true.mp fixed u before
      · exact bne_iff_ne.mpr (isToken_unit flat after).2.2
    have shape : (front ++ ending own).reverse =
        (units ".tmp").reverse ++ ((units "rulecast-" ++ own).reverse ++ dot :: front.reverse) := by
      have head : units ".rulecast-" = dot :: units "rulecast-" := rfl
      simp [ending, head]
    rw [shape, List.drop_left' (show (units ".tmp").reverse.length = 4 from rfl), List.takeWhile_append_of_pos inside,
      List.takeWhile_cons_of_neg (by decide), List.append_nil, List.reverse_reverse]
  have again := cut ([dot] ++ name.text) token plain
  rw [texts, cut ([dot] ++ second.text) other plainToo] at again
  exact (List.append_cancel_left again).symm

end Corpus

end Emend
