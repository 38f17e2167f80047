import HarvestPlan.Proofs.Path.Occurrence
import HarvestPlan.Proofs.Path.Segments
import HarvestPlan.Proofs.Path.Trimmed

namespace HarvestPlan

namespace Text

theorem cut_replicate_append {α : Type} [DecidableEq α] (separator : α) (count : Nat)
    (text : List α) : cut separator (List.replicate count separator ++ text) =
      List.replicate count [] ++ cut separator text := by
  induction count with
  | zero => rfl
  | succ count ih => simp [List.replicate_succ, cut, ih]

theorem cut_append_replicate {α : Type} [DecidableEq α] (separator : α) (text : List α)
    (count : Nat) : cut separator (text ++ List.replicate count separator) =
      cut separator text ++ List.replicate count [] := by
  induction count with
  | zero => simp
  | succ count ih =>
    rw [List.replicate_succ', ← List.append_assoc, cut_append, ih, List.replicate_succ',
      List.append_assoc]
    rfl

end Text

namespace BasePath

open Text (cut join trim trimEnd fromFirst?)

def IsComponent (text : List Char) : Prop := text ≠ [] ∧ '/' ∉ text

def spelled (leading : Nat) (components : List (List Char)) (trailing : Nat) : List Char :=
  List.replicate leading '/' ++ (join '/' components ++ List.replicate trailing '/')

variable {components above below : List (List Char)} {leading trailing ending : Nat}

theorem join_ends (proper : ∀ c ∈ components, IsComponent c) :
    (join '/' components).head? ≠ some '/' ∧ (join '/' components).getLast? ≠ some '/' := by
  constructor
  · cases components with
    | nil => simp [join]
    | cons first rest =>
      obtain ⟨some_, free⟩ := proper first (by simp)
      obtain ⟨c, cs, rfl⟩ := List.exists_cons_of_ne_nil some_
      have other : c ≠ '/' := fun same => free (by simp [same])
      by_cases alone : rest = []
      · simp [alone, join, other]
      · simp [Text.join_cons alone, other]
  · rcases List.eq_nil_or_concat components with rfl | ⟨others, last, rfl⟩
    · simp [join]
    · rw [List.concat_eq_append] at proper ⊢
      obtain ⟨some_, free⟩ := proper last (by simp)
      obtain ⟨start, c, rfl⟩ := (List.eq_nil_or_concat last).resolve_left some_
      have other : c ≠ '/' := fun same => free (by simp [same])
      by_cases alone : others = []
      · simp [alone, join, other]
      · simp [Text.join_append alone, List.getLast?_append, List.getLast?_cons, other]

theorem trim_isSlash {text : List Char} (opens : text.head? ≠ some '/')
    (ends : text.getLast? ≠ some '/') : trim isSlash text = text := by
  apply Text.trim_of_surrounds
  · constructor
    · intro c first
      have other : c ≠ '/' := fun same => opens (same ▸ first)
      simpa [isSlash] using other
    · intro c last
      have other : c ≠ '/' := fun same => ends (same ▸ last)
      simpa [isSlash] using other
  · exact ⟨[], [], by simp, by simp, by simp⟩

theorem trim_join (proper : ∀ c ∈ components, IsComponent c) (front back : Nat) :
    trim isSlash (join '/' (List.replicate front [] ++ (components ++ List.replicate back []))) =
      join '/' components := by
  induction front with
  | zero =>
    rw [List.replicate_zero, List.nil_append]
    induction back with
    | zero =>
      obtain ⟨opens, ends⟩ := join_ends proper
      simpa using trim_isSlash opens ends
    | succ back ih =>
      rw [← ih, List.replicate_succ', ← List.append_assoc]
      by_cases none : components ++ List.replicate back [] = []
      · simp [none, join]
      · rw [Text.join_append none, Text.trim_concat_of_dropped (by decide)]
  | succ front ih =>
    rw [← ih, List.replicate_succ, List.cons_append]
    by_cases none : List.replicate front [] ++ (components ++ List.replicate back []) = []
    · simp [none, join]
    · rw [Text.join_cons none, List.nil_append, Text.trim_cons_of_dropped (by decide)]

theorem cut_spelled (proper : ∀ c ∈ components, IsComponent c) (leading trailing : Nat) :
    cut '/' (spelled leading components trailing) = List.replicate leading [] ++
      ((if components = [] then [[]] else components) ++ List.replicate trailing []) := by
  rw [spelled, Text.cut_replicate_append, Text.cut_append_replicate]
  split
  · rename_i none
    simp [none, join, cut]
  · rename_i some_
    rw [Text.cut_join some_ fun c present => (proper c present).2]

theorem unmarked_spelled (proper : ∀ c ∈ components, IsComponent c) (leading : Nat)
    (few : trailing ≤ 1) : ¬mark <:+: spelled leading components trailing := by
  rintro ⟨before, after, shape⟩
  have split : spelled leading components trailing = (before ++ [':']) ++ '/' :: ('/' :: after) := by
    simp [← shape, mark]
  by_cases none : components = []
  · have colon : ':' ∈ spelled leading components trailing := by simp [split]
    simp [spelled, none, join, List.mem_replicate] at colon
  obtain ⟨segment, held, inside⟩ :=
    Text.exists_mem_cut (show ':' ∈ before ++ [':'] by simp) (show ':' ≠ '/' by decide)
  have pieces : (cut '/' (spelled leading components trailing)).dropLast =
      cut '/' (before ++ [':']) ++ ([] :: (cut '/' after).dropLast) := by
    have rest : cut '/' ('/' :: after) = [] :: cut '/' after := by simp [cut]
    rw [split, Text.cut_append, rest, List.dropLast_append_of_ne_nil (by simp),
      List.dropLast_cons_of_ne_nil (Text.cut_ne_nil '/' after)]
  -- but for the last one, no segment after a component is empty
  have filled : (List.replicate leading [] ++ components).Pairwise
      fun segment later : List Char => segment ≠ [] → later ≠ [] := by
    rw [List.pairwise_append]
    refine ⟨List.pairwise_replicate.mpr (.inr (by simp)), ?_, ?_⟩
    · exact List.pairwise_of_forall_mem_list fun _ _ later held _ => (proper later held).1
    · intro segment padding later _ some_
      exact absurd (List.eq_of_mem_replicate padding) some_
  have within : (cut '/' (spelled leading components trailing)).dropLast.Sublist
      (List.replicate leading [] ++ components) := by
    rw [cut_spelled proper, if_neg none, ← List.append_assoc]
    obtain rfl | rfl : trailing = 0 ∨ trailing = 1 := by omega
    · simpa using List.dropLast_sublist _
    · simp
  have kept := filled.sublist within
  rw [pieces] at kept
  have apart := (List.pairwise_append.mp kept).2.2 segment held [] (by simp)
  exact apart (List.ne_nil_of_mem inside) rfl

def Closes (above : List (List Char)) (trailing : Nat) : Prop := 0 < trailing ∨ above = []

instance (above : List (List Char)) (trailing : Nat) : Decidable (Closes above trailing) :=
  inferInstanceAs (Decidable (_ ∨ _))

theorem join_ne_nil (proper : ∀ c ∈ components, IsComponent c) (some_ : components ≠ []) :
    join '/' components ≠ [] := by
  intro none
  have same := Text.cut_join some_ fun c present => (proper c present).2
  rw [none, cut] at same
  exact (proper [] (by simp [← same])).1 rfl

theorem getLast_spelled (proper : ∀ c ∈ components, IsComponent c) (filled : 0 < leading) :
    (spelled leading components trailing).getLast? = some '/' ↔ Closes components trailing := by
  rw [spelled, List.getLast?_append, List.getLast?_append, List.getLast?_replicate, Closes]
  by_cases closed : trailing = 0
  · by_cases none : components = []
    · simp [closed, none, join, List.getLast?_replicate, Nat.ne_of_gt filled]
    · have last := List.getLast?_eq_some_getLast (join_ne_nil proper none)
      have other := (join_ends proper).2
      rw [last] at other ⊢
      simpa [closed, none] using other
  · simp [closed, Nat.pos_of_ne_zero closed]

theorem trimEnd_spelled (proper : ∀ c ∈ components, IsComponent c) (filled : 0 < leading)
    (trailing : Nat) : trimEnd isSlash (spelled leading components trailing) =
      if components = [] then [] else spelled leading components 0 := by
  have dropped : trimEnd isSlash (spelled leading components trailing) =
      trimEnd isSlash (spelled leading components 0) := by
    induction trailing with
    | zero => rfl
    | succ trailing ih =>
      rw [← ih, spelled, spelled, List.replicate_succ', ← List.append_assoc, ← List.append_assoc,
        Text.trimEnd_concat_of_dropped (by decide), List.append_assoc]
  rw [dropped]
  split
  · rename_i none
    have slashes : spelled leading components 0 = List.replicate leading '/' := by
      simp [spelled, none, join]
    rw [slashes, trimEnd, List.reverse_replicate, List.dropWhile_eq_nil_iff.mpr]
    · rfl
    · intro c present
      rw [List.eq_of_mem_replicate present]
      rfl
  · rename_i some_
    refine Text.trimEnd_eq_self fun c last => ?_
    have other : c ≠ '/' := by
      rintro rfl
      simpa [Closes, some_] using (getLast_spelled proper filled).mp last
    simpa [isSlash] using other

def leftOut (above : List (List Char)) (trailing : Nat) : Nat :=
  if Closes above trailing then above.length else above.length - 1

theorem leftOut_le (above : List (List Char)) (trailing : Nat) :
    leftOut above trailing ≤ above.length := by
  unfold leftOut
  split <;> omega

theorem droppedSegments_spelled (proper : ∀ c ∈ above, IsComponent c) (filled : 0 < leading)
    (trailing : Nat) : droppedSegments (spelled leading above trailing)
      (trimEnd isSlash (spelled leading above trailing)) =
      (if above = [] then 1 else leading) + leftOut above trailing := by
  rw [droppedSegments, trimEnd_spelled proper filled, leftOut]
  simp only [getLast_spelled proper filled]
  by_cases none : above = []
  · simp [none, Closes, cut]
  · have some_ := List.length_pos_iff.mpr none
    rw [if_neg none, cut_spelled proper, if_neg none, if_neg none]
    simp only [List.length_append, List.length_replicate]
    split <;> omega

theorem below_spelled (proper : ∀ c ∈ above ++ below, IsComponent c) (filled : 0 < leading)
    (trailing ending : Nat) : BasePath.below (spelled leading above trailing)
      (trimEnd isSlash (spelled leading above trailing)) (spelled leading (above ++ below) ending) =
      join '/' ((above ++ below).drop (leftOut above trailing)) := by
  have kept : ∀ c ∈ (above ++ below).drop (leftOut above trailing), IsComponent c :=
    fun c present => proper c (List.mem_of_mem_drop present)
  have properAbove : ∀ c ∈ above, IsComponent c :=
    fun c present => proper c (List.mem_append_left _ present)
  rw [BasePath.below, droppedSegments_spelled properAbove filled, cut_spelled proper]
  by_cases none : above = []
  · subst none
    have all : leftOut [] trailing = 0 := by simp [leftOut]
    rw [if_pos rfl, all, List.drop_append_of_le_length (by rwa [List.length_replicate]),
      List.drop_replicate, List.drop_zero]
    rw [all, List.drop_zero] at kept
    split
    · rename_i empty
      have bare : ∀ c ∈ ([] : List (List Char)), IsComponent c := by simp
      have padding := trim_join bare (leading - 1) (ending + 1)
      rw [empty]
      simpa [List.replicate_succ] using padding
    · exact trim_join kept (leading - 1) ending
  · have some_ : above ++ below ≠ [] := by simp [none]
    have few := leftOut_le above trailing
    rw [if_neg none, if_neg some_, List.drop_append, List.drop_of_length_le (by simp),
      List.length_replicate, Nat.add_sub_cancel_left, List.nil_append,
      List.drop_append_of_le_length (by simp; omega)]
    exact trim_join kept 0 ending

theorem compute_spelled {fullPath root : String} (proper : ∀ c ∈ above ++ below, IsComponent c)
    (filled : 0 < leading) (spells : root.toList = spelled leading above trailing)
    (has : HasPath fullPath.toList (spelled leading (above ++ below) ending)) (name : Json.Value) :
    compute fullPath root name = .ok (.str (String.ofList
      (join '/' ((above ++ below).drop (leftOut above trailing))))) := by
  have some_ : ∀ components ending, spelled leading components ending ≠ [] := by
    intro components ending none
    simp [spelled, Nat.ne_of_gt filled] at none
  have nonempty : root.isEmpty = false := by
    rw [Bool.eq_false_iff, ne_eq, String.isEmpty_iff, ← String.toList_eq_nil_iff, spells]
    exact some_ above trailing
  have leads : trimEnd isSlash root.toList <+: spelled leading (above ++ below) ending := by
    rw [spells, trimEnd_spelled (fun c present => proper c (by simp [present])) filled]
    split
    · exact List.nil_prefix
    · rw [spelled, spelled, List.prefix_append_right_inj, List.replicate_zero, List.append_nil]
      exact (Text.join_isPrefix '/' above below).trans (List.prefix_append _ _)
  have found := Text.fromFirst_of_prefix leads (some_ _ _)
  rw [compute, if_neg (by simp [nonempty]), underRoot, has.withoutAuthority]
  simp only [found]
  rw [spells, below_spelled proper filled]
  rfl

end BasePath
end HarvestPlan
