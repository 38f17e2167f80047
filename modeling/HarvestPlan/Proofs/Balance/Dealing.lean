import Mathlib.Data.List.Nodup
import HarvestPlan.Proofs.Balance.Lightest
import HarvestPlan.Proofs.Balance.Weights

namespace HarvestPlan.Balance

structure FirstLightest (split : Split) (before after : List Split) : Prop where
  before : ∀ other ∈ before, split.key < other.key
  after : ∀ other ∈ after, split.key ≤ other.key

theorem FirstLightest.least {split : Split} {before after : List Split}
    (first : FirstLightest split before after) :
    ∀ other ∈ before ++ after, split.key ≤ other.key := by
  intro other present
  rcases List.mem_append.mp present with present | present
  · exact (first.before other present).le
  · exact first.after other present

theorem lightest_splits {splits : List Split} (counted : ∀ split ∈ splits, split.IsCounted)
    (nonempty : splits ≠ []) :
    ∃ before split after, splits = before ++ split :: after ∧ lightest splits = some split ∧
      FirstLightest split before after := by
  induction splits with
  | nil => exact absurd rfl nonempty
  | cons head rest ih =>
    rcases List.eq_nil_or_concat rest with rfl | ⟨_, _, filled⟩
    · exact ⟨[], head, [], rfl, rfl, ⟨by simp, by simp⟩⟩
    · have restCounted : ∀ split ∈ rest, split.IsCounted :=
        fun split present => counted split (List.mem_cons_of_mem _ present)
      obtain ⟨before, split, after, same, least, first⟩ := ih restCounted (by simp [filled])
      have splitPresent : split ∈ rest := by simp [same]
      have compare := lighter_iff (restCounted split splitPresent) (counted head (by simp))
      by_cases earlier : split.key < head.key
      · refine ⟨head :: before, split, after, by simp [same], ?_, ?_, first.after⟩
        · simp [lightest, least, compare.mpr earlier]
        · intro other present
          rcases List.mem_cons.mp present with rfl | present
          · exact earlier
          · exact first.before other present
      · refine ⟨[], head, rest, rfl, ?_, by simp, ?_⟩
        · simp [lightest, least, Bool.eq_false_iff.mpr (mt compare.mp earlier)]
        · intro other present
          have least : split.key ≤ other.key := by
            rw [same] at present
            rcases List.mem_append.mp present with present | present
            · exact (first.before other present).le
            · rcases List.mem_cons.mp present with rfl | present
              · exact le_rfl
              · exact first.after other present
          exact (not_lt.mp earlier).trans least

theorem replace_absent {split : Split} {splits : List Split}
    (absent : ∀ other ∈ splits, other.index ≠ split.index) : replace split splits = splits := by
  rw [replace]
  conv_rhs => rw [← List.map_id splits]
  apply List.map_congr_left
  intro other present
  simp [absent other present]

theorem replace_middle {split grown : Split} {before after : List Split}
    (same : grown.index = split.index)
    (distinct : ((before ++ split :: after).map (·.index)).Nodup) :
    replace grown (before ++ split :: after) = before ++ grown :: after := by
  simp only [List.map_append, List.map_cons, List.nodup_middle, List.nodup_cons] at distinct
  have absent : ∀ other ∈ before ++ after, other.index ≠ grown.index := by
    intro other present clash
    apply distinct.1
    rw [← List.map_append, ← same, ← clash]
    exact List.mem_map_of_mem present
  have apart : ∀ splits ⊆ before ++ after, replace grown splits = splits :=
    fun splits subset => replace_absent fun other present => absent other (subset present)
  have split : replace grown (before ++ split :: after) =
      replace grown before ++ grown :: replace grown after := by
    simp [replace, same]
  rw [split, apart before (by simp), apart after (by simp)]

theorem remove_middle {split : Split} {before after : List Split}
    (distinct : ((before ++ split :: after).map (·.index)).Nodup) :
    remove split.index (before ++ split :: after) = before ++ after := by
  simp only [List.map_append, List.map_cons, List.nodup_middle, List.nodup_cons] at distinct
  have absent : ∀ other ∈ before ++ after, other.index ≠ split.index := by
    intro other present clash
    apply distinct.1
    rw [← List.map_append, ← clash]
    exact List.mem_map_of_mem present
  have kept : ∀ splits ⊆ before ++ after, remove split.index splits = splits := by
    intro splits subset
    rw [remove, List.filter_eq_self]
    intro other present
    simpa using absent other (subset present)
  have parts : remove split.index (before ++ split :: after) =
      remove split.index before ++ remove split.index after := by
    simp [remove]
  rw [parts, kept before (by simp), kept after (by simp)]

structure State.IsOpen (cap : Int) (state : State) : Prop where
  counted : ∀ split ∈ state.opened, split.IsCounted
  opened : ∀ split ∈ state.opened, split.finalized = false
  below : ∀ split ∈ state.opened, split.size < cap
  distinct : (state.opened.map (·.index)).Nodup

/-- What a placement does: the first lightest split takes the member, and either stays where it is
    or, at the cap, is finalized and joins the finished ones. -/
inductive Placed (cap : Int) (member : Member) : State → State → Prop
  | kept {before after finished : List Split} {split : Split}
      (first : FirstLightest split before after) (below : (split.size + 1 : Int) < cap) :
      Placed cap member ⟨before ++ split :: after, finished⟩
        ⟨before ++ split.taking member :: after, finished⟩
  | closed {before after finished : List Split} {split : Split}
      (first : FirstLightest split before after) (full : (split.size + 1 : Int) = cap) :
      Placed cap member ⟨before ++ split :: after, finished⟩
        ⟨before ++ after, finished ++ [(split.taking member).finalize]⟩

inductive Deals (cap : Int) : List Member → State → State → Prop
  | done {state : State} : Deals cap [] state state
  | next {member : Member} {rest : List Member} {state middle last : State}
      (first : Placed cap member state middle) (later : Deals cap rest middle last) :
      Deals cap (member :: rest) state last

theorem place_of_whole {cap : Int} {state : State} {member : Member} (ready : state.IsOpen cap)
    (whole : member.IsWhole) (room : state.opened ≠ []) :
    ∃ next, place cap state member = .ok next ∧ Placed cap member state next := by
  obtain ⟨opened, finished⟩ := state
  obtain ⟨before, split, after, rfl, least, first⟩ := lightest_splits ready.counted room
  have present : split ∈ before ++ split :: after := by simp
  have added := (ready.counted split present).added (ready.opened split present) whole
  have below : (split.size : Int) < cap := ready.below split present
  have placed : place cap ⟨before ++ split :: after, finished⟩ member =
      if cap ≤ (split.taking member).size then
        .ok ⟨remove (split.taking member).index (before ++ split :: after),
          finished ++ [(split.taking member).finalize]⟩
      else .ok ⟨replace (split.taking member) (before ++ split :: after), finished⟩ := by
    simp only [place, least, added, bind, Except.bind, pure, Except.pure]
  rw [placed]
  by_cases full : cap ≤ (split.taking member).size
  · rw [if_pos full]
    rw [Split.size_taking, Nat.cast_succ] at full
    have closes : remove (split.taking member).index (before ++ split :: after) =
        before ++ after := remove_middle ready.distinct
    exact ⟨_, rfl, closes ▸ .closed first (by omega)⟩
  · rw [if_neg full]
    rw [Split.size_taking, Nat.cast_succ] at full
    have keeps : replace (split.taking member) (before ++ split :: after) =
        before ++ split.taking member :: after := replace_middle rfl ready.distinct
    exact ⟨_, rfl, keeps ▸ .kept first (by omega)⟩

end HarvestPlan.Balance
