import Longda.Seda.SedaConfigInit

/-!
# A failed initialization

`instantiate` is to leave nothing where it fails. A pool with a count that is too small makes it
return without a `clearconfig`, so that the pools before that one stay; and `clearconfig` itself
leaves the names of the stages, to which the next initialization adds.
-/

namespace Longda

open Lib

namespace SedaConfig

/-- Nothing is there, and an initialization is that of a new object. -/
def LeavesNothing (cfg : SedaConfig) : Prop :=
  cfg.mThreadPools = .empty ∧ cfg.mStages = .empty ∧ cfg.mStageNames = []
    ∧ ∀ env props, cfg.init env props = ({} : SedaConfig).init env props

/-- Where `instantiate` or `init` of a new object reports a failure, nothing is left. -/
def InitAtomic (env : SedaEnv) (props : CIni) : Prop :=
  (∀ cfg, ({} : SedaConfig).instantiate env props = some (.INITFAIL, cfg) → cfg.LeavesNothing)
    ∧ ∀ cfg, ({} : SedaConfig).init env props = some (.INITFAIL, cfg) → cfg.LeavesNothing

/-- If no stages are listed there is nothing to leave. Otherwise each of them is made, linked and
connected, unless the process ends before. -/
def StagesMeet (env : SedaEnv) (props : CIni) (pools : List Str) : Prop :=
  match stageNames props with
  | none => True
  | some stages => match firstObstacle (stageObstacle env props pools) [] stages with
    | some (_, e) => e = .aborted
    | none => match firstObstacle (linkObstacle env stages) [] (links props stages) with
      | some (_, e) => e = .aborted
      | none => ∀ name ∈ stages, env.ready name = true

/-- If a pool has a count that is too small, no pool is made before. If all are made, so are the
stages. -/
def InitMeets (env : SedaEnv) (props : CIni) : Prop :=
  match poolNames props with
  | none => True
  | some pools => match firstObstacle (poolObstacle env props) [] pools with
    | some (done, .ret) => done = []
    | some _ => True
    | none => pools = [] ∨ StagesMeet env props pools

variable {env : SedaEnv} {props : CIni} {cfg : SedaConfig}

theorem leavesNothing_iff_names (names : List Str) :
    LeavesNothing { mStageNames := names } ↔ names = [] := by
  constructor
  · exact fun h => h.2.2.1
  · rintro rfl
    exact ⟨rfl, rfl, rfl, fun _ _ => rfl⟩

/-- The result, if it is a failure, leaves nothing. -/
def FailsClean (res : Option (SedaStatus × SedaConfig)) : Prop :=
  ∀ cfg, res = some (.INITFAIL, cfg) → cfg.LeavesNothing

theorem failsClean_none : FailsClean none := fun _ h => by cases h

theorem failsClean_success : FailsClean (some (.SUCCESS, cfg)) := fun _ h => by cases h

theorem failsClean_fail_iff : FailsClean (some (.INITFAIL, cfg)) ↔ cfg.LeavesNothing := by
  constructor
  · exact fun h => h cfg rfl
  · intro h cfg' hcfg
    obtain rfl := (Prod.mk.inj (Option.some.inj hcfg)).2
    exact h

theorem ne_nil_of_firstObstacle {α ε : Type} {obstacle : List α → α → Option ε}
    {done xs : List α} {r : List α × ε} (h : firstObstacle obstacle done xs = some r) :
    xs ≠ [] := by
  rintro rfl
  cases h

/-- The stages and what follows, with the pools made. -/
theorem stagesMeet_iff {pools : List Str} (hpools : pools ≠ []) (h : PoolsMade [] pools cfg) :
    (FailsClean (andThen (cfg.initStages env props) (genNextStages env props))
      ∧ FailsClean (andThen (andThen (cfg.initStages env props) (genNextStages env props))
        (start env))) ↔ StagesMeet env props pools := by
  have hstages := initStages_spec env props h
  unfold StagesMeet
  rcases hnames : stageNames props with _ | stages <;> rw [hnames] at hstages
  · dsimp only at hstages ⊢
    rw [hstages]
    have hclean := failsClean_fail_iff.2 ((leavesNothing_iff_names []).2 rfl)
    exact iff_of_true ⟨hclean, hclean⟩ trivial
  · dsimp only at hstages ⊢
    rw [List.nil_append] at hstages
    have hfail : stages ≠ [] → ¬FailsClean (some (.INITFAIL, { mStageNames := stages })) := by
      intro hne hclean
      exact hne ((leavesNothing_iff_names stages).1 (failsClean_fail_iff.1 hclean))
    rcases hfirst : firstObstacle (stageObstacle env props pools) [] stages with _ | ⟨pre, e⟩
    · rw [hfirst] at hstages
      dsimp only at hstages ⊢
      by_cases hnil : stages = []
      · rw [if_pos hnil] at hstages
        rw [hstages, hnil]
        have hclean := failsClean_fail_iff.2 ((leavesNothing_iff_names []).2 rfl)
        exact iff_of_true ⟨hclean, hclean⟩ fun name hname => absurd hname List.not_mem_nil
      · rw [if_neg hnil] at hstages
        obtain ⟨base, hbase, hb⟩ := hstages
        rw [hbase]
        have hgen := genNextStages_spec hb env
        show FailsClean (base.genNextStages env props)
          ∧ FailsClean (andThen (base.genNextStages env props) (start env)) ↔ _
        rcases hlink : firstObstacle (linkObstacle env stages) [] (links props stages)
          with _ | ⟨pre, e⟩
        · rw [hlink] at hgen
          obtain ⟨cfg', hcfg, hlinked⟩ := hgen
          rw [hcfg, and_iff_right failsClean_success]
          obtain ⟨hok, hbad⟩ := (hlinked.startable hb hpools hfirst).start_spec
          simp only [hlinked.stage_isSome hb] at hok hbad
          show FailsClean (cfg'.start env) ↔ _
          by_cases hready : ∀ name ∈ stages, env.ready name = true
          · obtain ⟨u, hu⟩ := hok hready
            rw [hu]
            exact iff_of_true failsClean_success hready
          · rw [hbad hready]
            exact iff_of_false (hfail hnil) hready
        · rw [hlink] at hgen
          rcases e with _ | _ | _ <;> dsimp only at hgen ⊢ <;> rw [hgen]
          · exact iff_of_false (fun hc => hfail hnil hc.1) (by decide)
          · exact iff_of_false (fun hc => hfail hnil hc.1) (by decide)
          · exact iff_of_true ⟨failsClean_none, failsClean_none⟩ rfl
    · have hne := ne_nil_of_firstObstacle hfirst
      rw [hfirst] at hstages
      rcases e with _ | _ | _ <;> dsimp only at hstages ⊢ <;> rw [hstages]
      · exact iff_of_false (fun hc => hfail hne hc.1) (by decide)
      · exact iff_of_false (fun hc => hfail hne hc.1) (by decide)
      · exact iff_of_true ⟨failsClean_none, failsClean_none⟩ rfl

/-- A failure leaves nothing if and only if the conditions are met. -/
theorem initAtomic_iff (env : SedaEnv) (props : CIni) :
    InitAtomic env props ↔ InitMeets env props := by
  have hinit : ({} : SedaConfig).init env props
      = andThen (({} : SedaConfig).instantiate env props) (start env) := by
    unfold init
    rw [if_neg]
    rintro ⟨-, hne⟩
    exact hne ⟨rfl, rfl⟩
  unfold InitAtomic
  rw [hinit]
  show FailsClean _ ∧ FailsClean _ ↔ _
  have hpools := initThreadPool_spec env props []
  unfold InitMeets instantiate
  have hclean := failsClean_fail_iff.2 ((leavesNothing_iff_names []).2 rfl)
  rcases hnames : poolNames props with _ | pools <;> rw [hnames] at hpools
  · dsimp only at hpools ⊢
    rw [hpools]
    exact iff_of_true ⟨hclean, hclean⟩ trivial
  · dsimp only at hpools ⊢
    rcases hfirst : firstObstacle (poolObstacle env props) [] pools with _ | ⟨done, e⟩
    · rw [hfirst] at hpools
      dsimp only at hpools ⊢
      by_cases hnil : pools = []
      · rw [if_pos hnil] at hpools
        rw [hpools]
        exact iff_of_true ⟨hclean, hclean⟩ (.inl hnil)
      · rw [if_neg hnil] at hpools
        obtain ⟨cfg, hcfg, hmade⟩ := hpools
        rw [hcfg, or_iff_right hnil]
        exact stagesMeet_iff hnil hmade
    · rw [hfirst] at hpools
      rcases e with _ | _ | _ <;> dsimp only at hpools ⊢
      · obtain ⟨cfg, hcfg, hmade⟩ := hpools
        rw [hcfg]
        show FailsClean (some (.INITFAIL, cfg)) ∧ FailsClean (some (.INITFAIL, cfg)) ↔ _
        rw [and_self, failsClean_fail_iff]
        constructor
        · intro h
          rw [List.eq_nil_iff_forall_not_mem]
          intro name hname
          have hsome := (hmade.found name).2 hname
          rw [h.1] at hsome
          cases hsome
        · rintro rfl
          have hcfg : cfg = {} := by
            obtain ⟨mThreadPools, mStages, mStageNames⟩ := cfg
            obtain ⟨rfl, rfl, hfound, -⟩ := hmade
            congr
            rw [OrderedMap.eq_empty_iff]
            exact fun name => Option.not_isSome_iff_eq_none.1 fun hs =>
              absurd ((hfound name).1 hs) List.not_mem_nil
          rw [hcfg]
          exact (leavesNothing_iff_names []).2 rfl
      · rw [hpools]
        exact iff_of_true ⟨hclean, hclean⟩ trivial
      · rw [hpools]
        exact iff_of_true ⟨hclean, hclean⟩ trivial

/-- The second of two pools has a count of 0; and a stage has no pool. -/
theorem not_initAtomic :
    let pools : CIni := (({} : CIni).put (ascii "ThreadPools") (ascii "p,q") SEDA_BASE_NAME).put
      (ascii "count") (ascii "0") (ascii "q")
    let stages : CIni := (({} : CIni).put (ascii "ThreadPools") (ascii "p") SEDA_BASE_NAME).put
      (ascii "STAGES") (ascii "s") SEDA_BASE_NAME
    ¬InitAtomic { factories := [] } pools ∧ ¬InitAtomic { factories := [] } stages := by
  intro pools stages
  refine ⟨fun h => ?_, fun h => ?_⟩
  · have hres : (({} : SedaConfig).instantiate { factories := [] } pools).map
        (fun r => (r.1, r.2.mThreadPools.size)) = some (.INITFAIL, 1) := by decide
    obtain ⟨⟨_, cfg⟩, hcfg, heq⟩ := Option.map_eq_some_iff.1 hres
    obtain ⟨rfl, hsize⟩ := Prod.mk.inj heq
    rw [(h.1 cfg hcfg).1] at hsize
    cases hsize
  · have hres : (({} : SedaConfig).instantiate { factories := [] } stages).map
        (fun r => (r.1, r.2.mStageNames)) = some (.INITFAIL, [ascii "s"]) := by decide
    obtain ⟨⟨_, cfg⟩, hcfg, heq⟩ := Option.map_eq_some_iff.1 hres
    obtain ⟨rfl, hnames⟩ := Prod.mk.inj heq
    exact absurd ((h.1 cfg hcfg).2.2.1.symm.trans hnames) (by decide)

end SedaConfig

end Longda
