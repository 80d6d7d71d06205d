import Longda.Seda.SedaConfigInit

/-!
# A configuration that is accepted

With assertions a stage whose pool is not listed, or a next stage that is not, ends the process;
without them `instantiate` goes on with a null pointer. What it accepts in either case is a stage
that is listed more than once: `genNextStages` links it as often as that. The same goes for a name
that a failed initialization has left behind.
-/

namespace Longda

open Lib

namespace SedaConfig

def listedPools (props : CIni) : List Str := (poolNames props).getD []

def listedStages (props : CIni) : List Str := (stageNames props).getD []

/-- The stages are those that are listed, with their pools and the stages next to them. Then no
stage of the queue status is null, and whoever starts the configuration meets no assertion that
fails. -/
structure Closed (props : CIni) (cfg : SedaConfig) : Prop where
  found : ∀ name, (cfg.mStages.find? name).isSome ↔ name ∈ listedStages props
  stages : ∀ name entry, cfg.mStages.find? name = some entry → ∃ st, entry = some st
    ∧ (∃ t p, threadId props name = some t ∧ t ∈ listedPools props ∧ cfg.pool t = some p
      ∧ st.thPool = some p)
    ∧ (∀ next ∈ nextStageNames props name, next ∈ listedStages props ∧ (cfg.stage next).isSome)
    ∧ st.nextStageList = (nextStageNames props name).map fun next => (cfg.stage next).map (·.id)
  queueStatus : cfg.getStageQueueStatus ≠ none
  start : ∀ env, cfg.start env ≠ none

/-- What is left is listed, a pool or a next stage that a stage names is listed, and a stage with
next stages is named once. -/
def ClosedMeets (props : CIni) (left : List Str) : Prop :=
  (∀ name ∈ left, name ∈ listedStages props)
    ∧ ∀ name ∈ left ++ listedStages props,
      (∃ t ∈ listedPools props, threadId props name = some t)
      ∧ (∀ next ∈ nextStageNames props name, next ∈ listedStages props)
      ∧ (nextStageNames props name ≠ [] → (left ++ listedStages props).count name = 1)

variable {env : SedaEnv} {props : CIni} {cfg base : SedaConfig} {left pools names : List Str}

/-! ## What has been made -/

theorem andThen_success {res : Option (SedaStatus × SedaConfig)}
    {step : SedaConfig → Option (SedaStatus × SedaConfig)}
    (h : andThen res step = some (.SUCCESS, cfg)) :
    ∃ base, res = some (.SUCCESS, base) ∧ step base = some (.SUCCESS, cfg) := by
  obtain ⟨⟨status, base⟩, hres, hstep⟩ := Option.bind_eq_some_iff.1 h
  dsimp only at hstep
  split_ifs at hstep with hs
  · exact ⟨base, by rw [hres, hs], hstep⟩
  · exact absurd (congrArg Prod.fst (Option.some.inj hstep)) hs

theorem initThreadPool_success
    (h : ({ mStageNames := left } : SedaConfig).initThreadPool env props = some (.SUCCESS, cfg)) :
    listedPools props ≠ [] ∧ PoolsMade left (listedPools props) cfg := by
  have hspec := initThreadPool_spec env props left
  unfold listedPools
  rcases hp : poolNames props with _ | pools <;> rw [hp] at hspec <;> dsimp only at hspec
  · rw [hspec] at h
    cases h
  · rcases hfirst : firstObstacle (poolObstacle env props) [] pools with _ | ⟨done, _ | _ | _⟩ <;>
      rw [hfirst] at hspec <;> dsimp only at hspec
    · split_ifs at hspec with hnil
      · rw [hspec] at h
        cases h
      · obtain ⟨cfg', hcfg, hmade⟩ := hspec
        obtain ⟨-, rfl⟩ := Prod.mk.inj (Option.some.inj (hcfg.symm.trans h))
        exact ⟨hnil, hmade⟩
    · obtain ⟨cfg', hcfg, -⟩ := hspec
      cases hcfg.symm.trans h
    · cases hspec.symm.trans h
    · cases hspec.symm.trans h

theorem initStages_success (hmade : PoolsMade left pools base)
    (h : base.initStages env props = some (.SUCCESS, cfg)) :
    StagesMade props (left ++ listedStages props) pools (left ++ listedStages props) cfg := by
  have hspec := initStages_spec env props hmade
  unfold listedStages
  rcases hs : stageNames props with _ | stages <;> rw [hs] at hspec <;> dsimp only at hspec
  · cases hspec.symm.trans h
  · dsimp only [Option.getD_some]
    rcases hfirst : firstObstacle (stageObstacle env props pools) [] (left ++ stages)
      with _ | ⟨done, _ | _ | _⟩ <;> rw [hfirst] at hspec <;> dsimp only at hspec
    · split_ifs at hspec with hnil
      · cases hspec.symm.trans h
      · obtain ⟨cfg', hcfg, hb⟩ := hspec
        obtain ⟨-, rfl⟩ := Prod.mk.inj (Option.some.inj (hcfg.symm.trans h))
        exact hb
    · cases hspec.symm.trans h
    · cases hspec.symm.trans h
    · cases hspec.symm.trans h

theorem genNextStages_success (hb : StagesMade props names pools names base)
    (h : base.genNextStages env props = some (.SUCCESS, cfg)) :
    Linked base (links props names) cfg := by
  have hspec := genNextStages_spec hb env
  rcases hfirst : firstObstacle (linkObstacle env names) [] (links props names)
    with _ | ⟨done, _ | _ | _⟩ <;> rw [hfirst] at hspec <;> dsimp only at hspec
  · obtain ⟨cfg', hcfg, hlinked⟩ := hspec
    obtain ⟨-, rfl⟩ := Prod.mk.inj (Option.some.inj (hcfg.symm.trans h))
    exact hlinked
  · cases hspec.symm.trans h
  · cases hspec.symm.trans h
  · cases hspec.symm.trans h

/-- What a configuration that is accepted went through. -/
theorem instantiate_success
    (h : ({ mStageNames := left } : SedaConfig).instantiate env props = some (.SUCCESS, cfg)) :
    ∃ base, listedPools props ≠ []
      ∧ StagesMade props (left ++ listedStages props) (listedPools props)
        (left ++ listedStages props) base
      ∧ Linked base (links props (left ++ listedStages props)) cfg := by
  obtain ⟨base, hstages, hlinks⟩ := andThen_success h
  obtain ⟨cfg₁, hpools, hstages⟩ := andThen_success hstages
  obtain ⟨hne, hmade⟩ := initThreadPool_success hpools
  have hb := initStages_success hmade hstages
  exact ⟨base, hne, hb, genNextStages_success hb hlinks⟩

/-- A stage is linked as often as it is named. -/
theorem filter_links (name : Str) (names : List Str) :
    (links props names).filter (·.1 = name)
      = (List.replicate (names.count name)
        ((nextStageNames props name).map fun next => (name, next))).flatten := by
  induction names with
  | nil => rfl
  | cons n names ih =>
    have hlinks : links props (n :: names)
        = ((nextStageNames props n).map fun next => (n, next)) ++ links props names := rfl
    rw [hlinks, List.filter_append, ih]
    by_cases hn : n = name
    · subst hn
      rw [List.count_cons_self, List.replicate_succ, List.flatten_cons]
      simp
    · rw [List.count_cons_of_ne hn]
      simp [hn]

theorem mem_links {link : Str × Str} :
    link ∈ links props names ↔ link.1 ∈ names ∧ link.2 ∈ nextStageNames props link.1 := by
  obtain ⟨name, next⟩ := link
  unfold links
  simp only [List.mem_flatMap, List.mem_map, Prod.mk.injEq]
  constructor
  · rintro ⟨n, hn, x, hx, rfl, rfl⟩
    exact ⟨hn, hx⟩
  · rintro ⟨hn, hx⟩
    exact ⟨name, hn, next, hx, rfl, rfl⟩

/-- A stage after all is linked. -/
theorem stage_eq (hb : StagesMade props names pools names base)
    (h : Linked base (links props names) cfg) {name : Str} {st : Stage}
    (hst : cfg.stage name = some st) :
    name ∈ names ∧ st.connected = false ∧ st.qlen = 0
      ∧ (∃ t, threadId props name = some t ∧ st.thPool = cfg.pool t)
      ∧ st.nextStageList = (List.replicate (names.count name)
        ((nextStageNames props name).map fun next => (cfg.stage next).map (·.id))).flatten := by
  have hid : ∀ n, (base.stage n).map (·.id) = (cfg.stage n).map (·.id) := by
    intro n
    rw [h.stages, Option.map_map]
    rfl
  have hname := (h.stage_isSome hb name).1 (by rw [hst]; rfl)
  rw [h.stages, Option.map_eq_some_iff] at hst
  obtain ⟨u, hu, rfl⟩ := hst
  obtain ⟨i, t, ht, hentry⟩ := hb.made name (some u) (Option.join_eq_some_iff.1 hu)
  obtain rfl := Option.some.inj hentry
  refine ⟨hname, rfl, rfl, ⟨t, ht, ?_⟩, ?_⟩
  · show base.pool t = cfg.pool t
    unfold pool
    rw [h.pools]
  · show (List.map _ _) = _
    rw [filter_links, List.map_flatten, List.map_replicate, List.map_map]
    simp only [Function.comp_def, hid]

theorem getStageQueueStatus_ne_none (h : ∀ e ∈ cfg.mStages.entries, e.2.isSome) :
    cfg.getStageQueueStatus ≠ none := by
  unfold getStageQueueStatus
  generalize cfg.mStages.entries = entries at h
  rw [← Option.isSome_iff_ne_none]
  induction entries with
  | nil => rfl
  | cons e entries ih =>
    obtain ⟨st, hst⟩ := Option.isSome_iff_exists.1 (h e List.mem_cons_self)
    obtain ⟨l, hl⟩ := Option.isSome_iff_exists.1
      (ih fun e he => h e (List.mem_cons_of_mem _ he))
    rw [List.mapM_cons, hst, hl]
    rfl

/-! ## The configuration -/

theorem ClosedMeets.listed (h : ClosedMeets props left) :
    ∀ name ∈ left ++ listedStages props, name ∈ listedStages props := by
  intro name hname
  rcases List.mem_append.1 hname with hname | hname
  · exact h.1 name hname
  · exact hname

section Accepted

variable (hb : StagesMade props (left ++ listedStages props) (listedPools props)
    (left ++ listedStages props) base)
  (hlinked : Linked base (links props (left ++ listedStages props)) cfg)

include hb hlinked

theorem Closed.meets (hclosed : Closed props cfg) : ClosedMeets props left := by
  have hfound := hlinked.found
  simp only [hb.found] at hfound
  have hsub : ∀ name ∈ left ++ listedStages props, name ∈ listedStages props :=
    fun name hname => (hclosed.found name).1 ((hfound name).2 (.inl hname))
  refine ⟨fun name hname => hsub name (List.mem_append_left _ hname), fun name hname => ?_⟩
  obtain ⟨st, hst⟩ := Option.isSome_iff_exists.1 ((hlinked.stage_isSome hb name).2 hname)
  obtain ⟨st', hentry, ⟨t, p, ht, hmem, -, -⟩, hnext, hlist⟩ :=
    hclosed.stages name (some st) (Option.join_eq_some_iff.1 hst)
  obtain rfl := Option.some.inj hentry
  refine ⟨⟨t, hmem, ht⟩, fun next hn => (hnext next hn).1, fun hne => ?_⟩
  -- the next stages of one name would be there once for each time it is named
  obtain ⟨-, -, -, -, hlinks⟩ := stage_eq hb hlinked hst
  have hlen := congrArg List.length (hlinks.symm.trans hlist)
  rw [List.length_flatten, List.map_replicate, List.sum_replicate_nat, List.length_map] at hlen
  have hpos := List.length_pos_of_ne_nil hne
  exact Nat.eq_of_mul_eq_mul_right hpos (hlen.trans (Nat.one_mul _).symm)

/-- Nothing is looked up that is not listed. -/
theorem ClosedMeets.found (h : ClosedMeets props left) (name : Str) :
    (cfg.mStages.find? name).isSome ↔ name ∈ listedStages props := by
  have hfound := hlinked.found
  simp only [hb.found] at hfound
  rw [hfound]
  constructor
  · rintro (hname | hname)
    · exact h.listed name hname
    · obtain ⟨link, hlink, rfl⟩ := List.mem_map.1 hname
      obtain ⟨hl₁, hl₂⟩ := mem_links.1 hlink
      exact (h.2 link.1 hl₁).2.1 link.2 hl₂
  · exact fun hname => .inl (List.mem_append_right _ hname)

theorem stage_isSome_of_listed {name : Str} (hname : name ∈ listedStages props) :
    (cfg.stage name).isSome := (hlinked.stage_isSome hb name).2 (List.mem_append_right _ hname)

/-- No entry is null. -/
theorem ClosedMeets.entry (h : ClosedMeets props left) {name : Str} {entry : Option Stage}
    (hentry : cfg.mStages.find? name = some entry) :
    ∃ st, entry = some st ∧ cfg.stage name = some st := by
  have hname := (h.found hb hlinked name).1 (by rw [hentry]; rfl)
  obtain ⟨st, hst⟩ := Option.isSome_iff_exists.1 (stage_isSome_of_listed hb hlinked hname)
  have := Option.join_eq_some_iff.1 hst
  rw [hentry] at this
  exact ⟨st, Option.some.inj this, hst⟩

/-- Every stage is attached to a pool that is listed. -/
theorem ClosedMeets.thPool (h : ClosedMeets props left) {name : Str} {st : Stage}
    (hst : cfg.stage name = some st) : ∃ t p, threadId props name = some t
      ∧ t ∈ listedPools props ∧ cfg.pool t = some p ∧ st.thPool = some p := by
  obtain ⟨hname, -, -, ⟨t, ht, hth⟩, -⟩ := stage_eq hb hlinked hst
  obtain ⟨t', ht'mem, ht'⟩ := (h.2 name hname).1
  obtain rfl := Option.some.inj (ht.symm.trans ht')
  have hsome : (cfg.pool t).isSome := by
    unfold pool
    rw [hlinked.pools]
    exact (hb.pools t).2 ht'mem
  obtain ⟨p, hp⟩ := Option.isSome_iff_exists.1 hsome
  exact ⟨t, p, ht, ht'mem, hp, hth.trans hp⟩

theorem ClosedMeets.startable (h : ClosedMeets props left) (hpools : listedPools props ≠ []) :
    Startable env (left ++ listedStages props) cfg := by
  refine ⟨hlinked.pools ▸ hb.size_ne_zero hpools, hlinked.idle hb, fun name st hst => ?_,
    fun name st hst _ => ?_⟩
  · exact (stage_eq hb hlinked hst).2.2.1
  · obtain ⟨t, p, -, -, -, hp⟩ := h.thPool hb hlinked hst
    rw [hp]
    exact Option.some_ne_none p

theorem ClosedMeets.closed (h : ClosedMeets props left) (hpools : listedPools props ≠ []) :
    Closed props cfg where
  found := h.found hb hlinked
  stages := fun name entry hentry => by
    obtain ⟨st, rfl, hst⟩ := h.entry hb hlinked hentry
    obtain ⟨hname, -, -, -, hlist⟩ := stage_eq hb hlinked hst
    obtain ⟨-, hnext, hcount⟩ := h.2 name hname
    refine ⟨st, rfl, h.thPool hb hlinked hst, fun next hn => ⟨hnext next hn,
      stage_isSome_of_listed hb hlinked (hnext next hn)⟩, ?_⟩
    rw [hlist]
    by_cases hne : nextStageNames props name = []
    · rw [hne]
      simp
    · rw [hcount hne]
      simp
  queueStatus := getStageQueueStatus_ne_none fun e he => by
    obtain ⟨st, hst, -⟩ := h.entry hb hlinked (OrderedMap.mem_entries_iff.1 he)
    rw [hst]
    rfl
  start := fun env => by
    have hstart : Startable env (left ++ listedStages props) cfg :=
      h.startable hb hlinked hpools
    obtain ⟨hok, hbad⟩ := hstart.start_spec
    by_cases hready : ∀ name, (cfg.stage name).isSome → env.ready name = true
    · obtain ⟨u, hu⟩ := hok hready
      rw [hu]
      exact Option.some_ne_none _
    · rw [hbad hready]
      exact Option.some_ne_none _

end Accepted

/-- What is accepted is closed if and only if the conditions are met. -/
theorem closed_iff
    (h : ({ mStageNames := left } : SedaConfig).instantiate env props = some (.SUCCESS, cfg)) :
    Closed props cfg ↔ ClosedMeets props left := by
  obtain ⟨base, hpools, hb, hlinked⟩ := instantiate_success h
  exact ⟨fun hclosed => hclosed.meets hb hlinked, fun hmeets => hmeets.closed hb hlinked hpools⟩

/-- A factory for the stages of one name. -/
def oneFactory : SedaEnv where
  factories := [(ascii "s", fun _ => .object)]

/-- A pool, and the stages that are given, each of which is next to itself. -/
def selfLinked (stages : String) : CIni :=
  ((((({} : CIni).put (ascii "ThreadPools") (ascii "p") SEDA_BASE_NAME).put
    (ascii "STAGES") (ascii stages) SEDA_BASE_NAME).put
    (ascii "ThreadId") (ascii "p") (ascii "s")).put
    (ascii "NextStages") (ascii "s") (ascii "s"))

theorem closed_one_stage : ∃ cfg,
    ({} : SedaConfig).instantiate oneFactory (selfLinked "s") = some (.SUCCESS, cfg)
      ∧ Closed (selfLinked "s") cfg := by
  have hres : (({} : SedaConfig).instantiate oneFactory (selfLinked "s")).map Prod.fst
      = some .SUCCESS := by decide
  obtain ⟨⟨_, cfg⟩, hcfg, rfl⟩ := Option.map_eq_some_iff.1 hres
  refine ⟨cfg, hcfg, (closed_iff hcfg).2 ?_⟩
  unfold ClosedMeets
  decide

/-- The stage is listed twice, and is next to itself twice. -/
theorem not_closed : ∃ cfg,
    ({} : SedaConfig).instantiate oneFactory (selfLinked "s,s") = some (.SUCCESS, cfg)
      ∧ ¬Closed (selfLinked "s,s") cfg := by
  have hres : (({} : SedaConfig).instantiate oneFactory (selfLinked "s,s")).map
      (fun r => (r.1, (r.2.stage (ascii "s")).map (·.nextStageList.length)))
        = some (.SUCCESS, some 2) := by decide
  obtain ⟨⟨_, cfg⟩, hcfg, heq⟩ := Option.map_eq_some_iff.1 hres
  obtain ⟨rfl, hlen⟩ := Prod.mk.inj heq
  refine ⟨cfg, hcfg, fun hclosed => ?_⟩
  obtain ⟨st, hst, hlen⟩ := Option.map_eq_some_iff.1 hlen
  obtain ⟨st', hst', -, -, hlist⟩ :=
    hclosed.stages (ascii "s") (some st) (Option.join_eq_some_iff.1 hst)
  obtain rfl := Option.some.inj hst'
  rw [hlist, List.length_map] at hlen
  exact absurd hlen (by decide)

end SedaConfig

end Longda
