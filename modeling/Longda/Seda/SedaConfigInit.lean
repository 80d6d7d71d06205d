import Longda.Seda.SedaConfig

/-!
# What the initialization comes to

Each of the loops is left at the first name that stands in its way. So the obstacles can be read off
the configuration and the environment, and with them what `initThreadPool`, `initStages`,
`genNextStages` and `start` return and leave behind.
-/

namespace Longda

open Lib

namespace SedaConfig

open CIni (CFG_DELIMIT_TAG)

variable (env : SedaEnv) (props : CIni)

/-! ## Names and obstacles -/

/-- The pools that are listed. -/
def poolNames : Option (List Str) :=
  ((props.getSection SEDA_BASE_NAME).find? THREAD_POOLS_NAME).map
    (CLstring.splitString · CFG_DELIMIT_TAG)

/-- The stages that are listed. -/
def stageNames : Option (List Str) :=
  ((props.getSection SEDA_BASE_NAME).find? (ascii "STAGES")).map
    (CLstring.splitString · CFG_DELIMIT_TAG)

/-- The name of the pool of a stage. -/
def threadId (stageName : Str) : Option Str :=
  (props.getSection stageName).find? (ascii "ThreadId")

/-- The links of the stages, in the order in which they are made. -/
def links (stages : List Str) : List (Str × Str) :=
  stages.flatMap fun name => (nextStageNames props name).map fun next => (name, next)

def poolObstacle (done : List Str) (name : Str) : Option SedaExit :=
  if threadCount props name < 1 then some .ret
  else if env.poolThrows done.length then some .thrown
  else none

def stageObstacle (pools done : List Str) (name : Str) : Option SedaExit :=
  match threadId props name with
  | none => some .ret
  | some t =>
    if t = [] then some .ret
    else match env.makeInstance done.length name with
      | .null => some (if env.asserts then .aborted else .ret)
      | .thrown => some .thrown
      | .object => if env.asserts ∧ t ∉ pools then some .aborted else none

def linkObstacle (stages : List Str) (done : List (Str × Str)) (link : Str × Str) :
    Option SedaExit :=
  if env.asserts ∧ link.2 ∉ stages then some .aborted
  else if env.pushThrows done.length then some .thrown
  else none

/-! ## Lookups -/

section Lookup

variable (cfg : SedaConfig) (name name' : Str)

@[simp] theorem pool_lookupPool : (cfg.lookupPool name).pool name' = cfg.pool name' := by
  unfold lookupPool pool
  dsimp only
  rw [OrderedMap.find?_insert]
  split_ifs with h
  · rw [h]
    rcases cfg.mThreadPools.find? name with _ | p <;> rfl
  · rfl

@[simp] theorem stage_lookupStage : (cfg.lookupStage name).stage name' = cfg.stage name' := by
  unfold lookupStage stage
  dsimp only
  rw [OrderedMap.find?_insert]
  split_ifs with h
  · rw [h]
    rcases cfg.mStages.find? name with _ | p <;> rfl
  · rfl

@[simp] theorem stage_setStage (st : Stage) :
    (cfg.setStage name st).stage name' = if name' = name then some st else cfg.stage name' := by
  unfold setStage stage
  dsimp only
  rw [OrderedMap.find?_set]
  split_ifs <;> rfl

@[simp] theorem pool_setStage (st : Stage) : (cfg.setStage name st).pool name' = cfg.pool name' :=
  rfl

theorem lookupStage_eq_self (h : (cfg.mStages.find? name).isSome) : cfg.lookupStage name = cfg := by
  unfold lookupStage OrderedMap.insert
  rw [if_pos h]

end Lookup

theorem size_lt_one_iff {α : Type} {m : OrderedMap Str α} {names : List Str}
    (h : ∀ name, (m.find? name).isSome ↔ name ∈ names) : m.size < 1 ↔ names = [] := by
  rw [Nat.lt_one_iff, OrderedMap.size_eq_zero_iff, OrderedMap.eq_empty_iff,
    List.eq_nil_iff_forall_not_mem]
  exact forall_congr' fun name => by rw [← h name, Option.not_isSome_iff_eq_none]

/-! ## What a failure leaves -/

/-- No stage is connected. -/
structure Idle (names : List Str) (cfg : SedaConfig) : Prop where
  names : cfg.mStageNames = names
  idle : ∀ name st, cfg.stage name = some st → st.connected = false

variable {env props} {cfg : SedaConfig} {left pools names done : List Str}

theorem clearconfig_eq (h : Idle names cfg) :
    cfg.clearconfig env = some { mStageNames := names } := by
  unfold clearconfig
  rw [if_neg, h.names]
  rintro ⟨-, hany⟩
  obtain ⟨⟨name, entry⟩, hmem, hcon⟩ := List.any_eq_true.1 hany
  rcases entry with _ | st
  · cases hcon
  · have hst : cfg.stage name = some st := by
      unfold stage
      rw [OrderedMap.mem_entries_iff.1 hmem]
      rfl
    have hcon : st.connected = true := hcon
    rw [h.idle name st hst] at hcon
    cases hcon

theorem fail_eq (h : Idle names cfg) :
    cfg.fail env = some (.INITFAIL, { mStageNames := names }) := by
  unfold fail
  rw [clearconfig_eq h]
  rfl

/-- With all stages disconnected the assertion of `clearconfig` cannot fail. -/
theorem cleanup_eq (env : SedaEnv) (cfg : SedaConfig) :
    cfg.cleanup env = some { mStageNames := cfg.mStageNames } := by
  refine clearconfig_eq ⟨rfl, fun name st hst => ?_⟩
  unfold stage at hst
  dsimp only at hst
  rw [OrderedMap.find?_mapVals] at hst
  rcases hf : cfg.mStages.find? name with _ | _ | stage <;> rw [hf] at hst
  · cases hst
  · cases hst
  · obtain rfl := Option.some.inj hst
    unfold Stage.disconnect
    split_ifs with h
    · rfl
    · exact Bool.eq_false_iff.2 h

/-! ## The thread pools -/

structure PoolsMade (left done : List Str) (cfg : SedaConfig) : Prop where
  names : cfg.mStageNames = left
  stages : cfg.mStages = .empty
  found : ∀ name, (cfg.mThreadPools.find? name).isSome ↔ name ∈ done
  pools : ∀ name, (cfg.pool name).isSome ↔ name ∈ done

theorem PoolsMade.idle (h : PoolsMade left done cfg) : Idle left cfg where
  names := h.names
  idle := fun name st hst => by
    unfold stage at hst
    rw [h.stages] at hst
    cases hst

theorem poolsMade_nil (left : List Str) : PoolsMade left [] { mStageNames := left } where
  names := rfl
  stages := rfl
  found := fun name => by simp [OrderedMap.find?_empty]
  pools := fun name => by simp [pool, OrderedMap.find?_empty]

theorem newThreadpool_next {name : Str} (h : PoolsMade left done cfg)
    (hob : poolObstacle env props done name = none) :
    ∃ t, newThreadpool env props done.length name cfg = .next t
      ∧ PoolsMade left (done ++ [name]) t := by
  unfold poolObstacle at hob
  split_ifs at hob with hcount hthrow
  unfold newThreadpool
  rw [if_neg hcount, if_neg hthrow]
  refine ⟨_, rfl, h.names, h.stages, fun name' => ?_, fun name' => ?_⟩
  · dsimp only
    rw [OrderedMap.find?_set, List.mem_append, List.mem_singleton, ← h.found name']
    split_ifs with hn <;> simp [hn]
  · unfold pool
    dsimp only
    rw [OrderedMap.find?_set, List.mem_append, List.mem_singleton, ← h.pools name']
    unfold pool
    split_ifs with hn <;> simp [hn]

theorem newThreadpool_exit {name : Str} {e : SedaExit} (h : PoolsMade left done cfg)
    (hob : poolObstacle env props done name = some e) :
    ∃ t, newThreadpool env props done.length name cfg = .exit e t
      ∧ PoolsMade left done t ∧ e ≠ .aborted := by
  unfold poolObstacle at hob
  unfold newThreadpool
  split_ifs at hob ⊢ <;> obtain rfl := Option.some.inj hob <;> exact ⟨cfg, rfl, h, by decide⟩

/-- Only a count that is too small leaves anything of what was made before. -/
theorem initThreadPool_spec (env : SedaEnv) (props : CIni) (left : List Str) :
    match poolNames props with
    | none => ({ mStageNames := left } : SedaConfig).initThreadPool env props
        = some (.INITFAIL, { mStageNames := left })
    | some pools => match firstObstacle (poolObstacle env props) [] pools with
      | some (done, .ret) => ∃ cfg, ({ mStageNames := left } : SedaConfig).initThreadPool env props
          = some (.INITFAIL, cfg) ∧ PoolsMade left done cfg
      | some _ => ({ mStageNames := left } : SedaConfig).initThreadPool env props
          = some (.INITFAIL, { mStageNames := left })
      | none => if pools = [] then ({ mStageNames := left } : SedaConfig).initThreadPool env props
            = some (.INITFAIL, { mStageNames := left })
          else ∃ cfg, ({ mStageNames := left } : SedaConfig).initThreadPool env props
            = some (.SUCCESS, cfg) ∧ PoolsMade left pools cfg := by
  unfold poolNames initThreadPool
  rcases (props.getSection SEDA_BASE_NAME).find? THREAD_POOLS_NAME with _ | poolNames
  · rfl
  · dsimp only [Option.map_some]
    generalize CLstring.splitString poolNames CFG_DELIMIT_TAG = pools
    have hwalk := walk_spec (newThreadpool env props) (poolObstacle env props) (PoolsMade left)
      (fun done e cfg => PoolsMade left done cfg ∧ e ≠ .aborted) [] pools
      (fun done name cfg _ h hob => newThreadpool_next h hob)
      (fun done name e cfg _ h hob => newThreadpool_exit h hob)
      (poolsMade_nil left)
    rw [List.length_nil, List.nil_append] at hwalk
    rcases hfirst : firstObstacle (poolObstacle env props) [] pools with _ | ⟨done, e⟩
    · rw [hfirst] at hwalk
      obtain ⟨cfg, hcfg, hmade⟩ := hwalk
      dsimp only
      rw [hcfg]
      have hsize := size_lt_one_iff hmade.found
      by_cases hnil : pools = []
      · rw [if_pos hnil]
        dsimp only
        rw [if_pos (hsize.2 hnil)]
        exact fail_eq hmade.idle
      · rw [if_neg hnil]
        dsimp only
        rw [if_neg fun h => hnil (hsize.1 h)]
        exact ⟨cfg, rfl, hmade⟩
    · rw [hfirst] at hwalk
      obtain ⟨cfg, hcfg, hmade, he⟩ := hwalk
      rw [hcfg]
      rcases e with _ | _ | _
      · exact ⟨cfg, rfl, hmade⟩
      · exact fail_eq hmade.idle
      · exact absurd rfl he

/-! ## The stages -/

/-- Each of the stages has its pool, if that was made. -/
structure StagesMade (props : CIni) (names pools done : List Str) (cfg : SedaConfig) : Prop where
  names : cfg.mStageNames = names
  pools : ∀ name, (cfg.pool name).isSome ↔ name ∈ pools
  found : ∀ name, (cfg.mStages.find? name).isSome ↔ name ∈ done
  made : ∀ name entry, cfg.mStages.find? name = some entry → ∃ i t, threadId props name = some t
    ∧ entry = some { id := i, thPool := cfg.pool t }

theorem StagesMade.idle (h : StagesMade props names pools done cfg) : Idle names cfg where
  names := h.names
  idle := fun name st hst => by
    unfold stage at hst
    rcases hf : cfg.mStages.find? name with _ | entry <;> rw [hf] at hst
    · cases hst
    · obtain ⟨i, t, -, rfl⟩ := h.made name entry hf
      obtain rfl := Option.some.inj hst
      rfl

theorem StagesMade.stage_isSome (h : StagesMade props names pools done cfg) (name : Str) :
    (cfg.stage name).isSome ↔ name ∈ done := by
  rw [← h.found]
  unfold stage
  rcases hf : cfg.mStages.find? name with _ | entry
  · rfl
  · obtain ⟨i, t, -, rfl⟩ := h.made name entry hf
    exact iff_of_true rfl rfl

theorem StagesMade.size_ne_zero (h : StagesMade props names pools done cfg) (hpools : pools ≠ []) :
    cfg.mThreadPools.size ≠ 0 := by
  obtain ⟨p, hp⟩ := List.exists_mem_of_ne_nil pools hpools
  intro hsize
  have hsome := (h.pools p).2 hp
  unfold pool at hsome
  rw [OrderedMap.size_eq_zero_iff.1 hsize] at hsome
  cases hsome

theorem stagesMade_nil (props : CIni) (h : PoolsMade left pools cfg) (names : List Str) :
    StagesMade props names pools [] { cfg with mStageNames := names } where
  names := rfl
  pools := h.pools
  found := fun name => by simp [h.stages, OrderedMap.find?_empty]
  made := fun name entry hf => by
    dsimp only at hf
    rw [h.stages, OrderedMap.find?_empty] at hf
    cases hf

theorem StagesMade.pool_eq_none_iff (h : StagesMade props names pools done cfg) (t : Str) :
    (cfg.lookupPool t).pool t = none ↔ t ∉ pools := by
  rw [pool_lookupPool, ← Option.not_isSome_iff_eq_none, h.pools]

/-- Another stage is made. -/
theorem StagesMade.setStage {name t : Str} (h : StagesMade props names pools done cfg)
    (ht : threadId props name = some t) (i : ℕ) :
    StagesMade props names pools (done ++ [name])
      ((cfg.lookupPool t).setStage name { id := i, thPool := (cfg.lookupPool t).pool t }) where
  names := h.names
  pools := fun name' => by
    rw [pool_setStage, pool_lookupPool]
    exact h.pools name'
  found := fun name' => by
    unfold SedaConfig.setStage
    dsimp only
    rw [OrderedMap.find?_set, List.mem_append, List.mem_singleton, ← h.found name']
    split_ifs with hn
    · simp [hn]
    · simp only [hn, or_false]
      rfl
  made := fun name' entry hf => by
    unfold SedaConfig.setStage at hf
    dsimp only at hf
    rw [OrderedMap.find?_set] at hf
    split_ifs at hf with hn
    · obtain rfl := Option.some.inj hf
      exact ⟨i, t, by rw [hn]; exact ht, by rw [pool_setStage]⟩
    · obtain ⟨i', t', ht', rfl⟩ := h.made name' entry hf
      exact ⟨i', t', ht', by rw [pool_setStage, pool_lookupPool]⟩

/-- A stage is made, or the loop is left at what stands in the way. -/
theorem newStage_spec (env : SedaEnv) (name : Str) (h : StagesMade props names pools done cfg) :
    match stageObstacle env props pools done name with
    | none => ∃ u, newStage env props done.length name cfg = .next u
        ∧ StagesMade props names pools (done ++ [name]) u
    | some e => ∃ u, newStage env props done.length name cfg = .exit e u
        ∧ (e ≠ .aborted → Idle names u) := by
  unfold stageObstacle newStage threadId
  rcases hid : (props.getSection name).find? (ascii "ThreadId") with _ | t <;> dsimp only
  · exact ⟨cfg, rfl, fun _ => h.idle⟩
  · by_cases ht : t = []
    · rw [if_pos ht, if_pos ht]
      exact ⟨cfg, rfl, fun _ => h.idle⟩
    · have hidle : Idle names (cfg.lookupPool t) := ⟨h.names, h.idle.idle⟩
      rw [if_neg ht, if_neg ht]
      rcases env.makeInstance done.length name with _ | _ | _ <;> dsimp only
      · by_cases hab : env.asserts = true ∧ t ∉ pools
        · rw [if_pos hab, if_pos ⟨hab.1, (h.pool_eq_none_iff t).2 hab.2⟩]
          exact ⟨_, rfl, fun he => absurd rfl he⟩
        · rw [if_neg hab, if_neg fun hn => hab ⟨hn.1, (h.pool_eq_none_iff t).1 hn.2⟩]
          exact ⟨_, rfl, h.setStage hid _⟩
      · exact ⟨_, rfl, fun _ => hidle⟩
      · exact ⟨_, rfl, fun _ => hidle⟩

/-- A failure leaves the names of the stages. -/
theorem initStages_spec (env : SedaEnv) (props : CIni) (h : PoolsMade left pools cfg) :
    match stageNames props with
    | none => cfg.initStages env props = some (.INITFAIL, { mStageNames := left })
    | some stages => match firstObstacle (stageObstacle env props pools) [] (left ++ stages) with
      | some (_, .aborted) => cfg.initStages env props = none
      | some _ => cfg.initStages env props
          = some (.INITFAIL, { mStageNames := left ++ stages })
      | none => if left ++ stages = [] then cfg.initStages env props
            = some (.INITFAIL, { mStageNames := left ++ stages })
          else ∃ cfg', cfg.initStages env props = some (.SUCCESS, cfg')
            ∧ StagesMade props (left ++ stages) pools (left ++ stages) cfg' := by
  unfold stageNames initStages
  rcases (props.getSection SEDA_BASE_NAME).find? (ascii "STAGES") with _ | stageNames
  · exact fail_eq h.idle
  · dsimp only [Option.map_some]
    generalize CLstring.splitString stageNames CFG_DELIMIT_TAG = stages
    rw [h.names]
    have hwalk := walk_spec (newStage env props) (stageObstacle env props pools)
      (StagesMade props (left ++ stages) pools)
      (fun _ e u => e ≠ .aborted → Idle (left ++ stages) u) [] (left ++ stages)
      (fun done name cfg _ h hob => by simpa only [hob] using newStage_spec env name h)
      (fun done name e cfg _ h hob => by simpa only [hob] using newStage_spec env name h)
      (stagesMade_nil props h (left ++ stages))
    rw [List.length_nil, List.nil_append] at hwalk
    rcases hfirst : firstObstacle (stageObstacle env props pools) [] (left ++ stages)
      with _ | ⟨done, e⟩
    · rw [hfirst] at hwalk
      obtain ⟨cfg', hcfg, hmade⟩ := hwalk
      dsimp only
      rw [hcfg]
      have hsize := size_lt_one_iff hmade.found
      by_cases hnil : left ++ stages = []
      · rw [if_pos hnil]
        dsimp only
        rw [if_pos (hsize.2 hnil)]
        exact fail_eq hmade.idle
      · rw [if_neg hnil]
        dsimp only
        rw [if_neg fun h => hnil (hsize.1 h)]
        exact ⟨cfg', rfl, hmade⟩
    · rw [hfirst] at hwalk
      obtain ⟨cfg', hcfg, hidle⟩ := hwalk
      rw [hcfg]
      rcases e with _ | _ | _
      · exact fail_eq (hidle (by decide))
      · exact fail_eq (hidle (by decide))
      · rfl

/-! ## The links -/

/-- The links so far are in the lists of the stages, and nothing else is. -/
structure Linked (base : SedaConfig) (done : List (Str × Str)) (cfg : SedaConfig) : Prop where
  names : cfg.mStageNames = base.mStageNames
  pools : cfg.mThreadPools = base.mThreadPools
  stages : ∀ name, cfg.stage name = (base.stage name).map fun st => { st with
    nextStageList := (done.filter (·.1 = name)).map fun link => (base.stage link.2).map (·.id) }
  found : ∀ name, (cfg.mStages.find? name).isSome ↔
    (base.mStages.find? name).isSome ∨ name ∈ done.map Prod.snd

section Links

variable {base : SedaConfig} {ds : List (Str × Str)} (hb : StagesMade props names pools names base)

include hb

theorem linked_nil : Linked base [] base where
  names := rfl
  pools := rfl
  stages := fun name => by
    unfold stage
    rcases hf : base.mStages.find? name with _ | entry
    · rfl
    · obtain ⟨i, t, -, rfl⟩ := hb.made name entry hf
      rfl
  found := fun name => by simp

theorem Linked.idle (h : Linked base ds cfg) : Idle names cfg where
  names := h.names.trans hb.names
  idle := fun name st hst => by
    rw [h.stages, Option.map_eq_some_iff] at hst
    obtain ⟨u, hu, rfl⟩ := hst
    exact hb.idle.idle name u hu

/-- A stage that is to be linked is there, and not connected. -/
theorem Linked.stage_of_mem (h : Linked base ds cfg) {name : Str} (hn : name ∈ names) :
    ∃ st, cfg.stage name = some st ∧ st.connected = false := by
  obtain ⟨u, hu⟩ := Option.isSome_iff_exists.1 ((hb.stage_isSome name).2 hn)
  have hst := h.stages name
  rw [hu, Option.map_some] at hst
  exact ⟨_, hst, (h.idle hb).idle name _ hst⟩

theorem Linked.stage_eq_none_iff (h : Linked base ds cfg) (name : Str) :
    cfg.stage name = none ↔ name ∉ names := by
  rw [h.stages, Option.map_eq_none_iff, ← Option.not_isSome_iff_eq_none, hb.stage_isSome]

/-- When the assertions of `pushStage` fail. -/
theorem Linked.asserts_iff (env : SedaEnv) (h : Linked base ds cfg) {st : Stage}
    (hcon : st.connected = false) (name : Str) :
    env.asserts = true ∧ (cfg.stage name = none ∨ st.connected = true) ↔
      env.asserts = true ∧ name ∉ names := by
  rw [h.stage_eq_none_iff hb, hcon, or_iff_left Bool.false_ne_true]

theorem pushStage_next {link : Str × Str} (hlink : link.1 ∈ names) (h : Linked base ds cfg)
    (hob : linkObstacle env names ds link = none) :
    ∃ u, pushStage env ds.length link cfg = .next u ∧ Linked base (ds ++ [link]) u := by
  obtain ⟨st, hst, hcon⟩ := h.stage_of_mem hb hlink
  unfold linkObstacle at hob
  split_ifs at hob with hab hthrow
  unfold pushStage
  dsimp only
  rw [stage_lookupStage, stage_lookupStage, hst]
  dsimp only
  rw [if_neg fun hc => hab ((h.asserts_iff hb env hcon link.2).1 hc), if_neg hthrow]
  refine ⟨_, rfl, h.names, h.pools, fun name => ?_, fun name => ?_⟩
  · rw [stage_setStage, stage_lookupStage, List.filter_append, List.map_append]
    by_cases hn : name = link.1
    · subst hn
      rw [if_pos rfl]
      have hst' := hst
      rw [h.stages] at hst' ⊢
      obtain ⟨u, hu, rfl⟩ := Option.map_eq_some_iff.1 hst'
      rw [hu, Option.map_some]
      simp [Function.comp_def]
    · have hfilter : [link].filter (fun l => decide (l.1 = name)) = [] := by
        simp [Ne.symm hn]
      rw [if_neg hn, hfilter, List.map_nil, List.append_nil]
      exact h.stages name
  · unfold setStage lookupStage
    dsimp only
    rw [OrderedMap.find?_set, List.map_append, List.mem_append, List.map_singleton,
      List.mem_singleton, ← or_assoc, ← h.found name]
    split_ifs with hn
    · subst hn
      have hfound : (cfg.mStages.find? link.1).isSome := by
        unfold stage at hst
        rcases hf : cfg.mStages.find? link.1 with _ | entry
        · rw [hf] at hst
          cases hst
        · rfl
      exact iff_of_true rfl (.inl hfound)
    · rw [OrderedMap.find?_insert]
      split_ifs with hn' <;> simp [hn']

theorem pushStage_exit {link : Str × Str} {e : SedaExit} (hlink : link.1 ∈ names)
    (h : Linked base ds cfg) (hob : linkObstacle env names ds link = some e) :
    ∃ u, pushStage env ds.length link cfg = .exit e u ∧ (e ≠ .aborted → Idle names u) := by
  obtain ⟨st, hst, hcon⟩ := h.stage_of_mem hb hlink
  have hidle : Idle names (cfg.lookupStage link.2) :=
    ⟨(h.idle hb).names, fun name st hst => (h.idle hb).idle name st (by simpa using hst)⟩
  unfold linkObstacle at hob
  unfold pushStage
  dsimp only
  rw [stage_lookupStage, stage_lookupStage, hst]
  dsimp only
  have hasserts := h.asserts_iff hb env hcon link.2
  split_ifs at hob with hab hthrow
  · obtain rfl := Option.some.inj hob
    rw [if_pos (hasserts.2 hab)]
    exact ⟨_, rfl, fun he => absurd rfl he⟩
  · obtain rfl := Option.some.inj hob
    rw [if_neg fun hc => hab (hasserts.1 hc), if_pos hthrow]
    exact ⟨_, rfl, fun _ => hidle⟩

/-- The two loops are one over the links. -/
theorem linkStages_spec (env : SedaEnv) {rest : List Str} (hrest : ∀ name ∈ rest, name ∈ names)
    (h : Linked base ds cfg) :
    match firstObstacle (linkObstacle env names) ds (links props rest) with
    | none => ∃ u, linkStages env props ds.length rest cfg = .next u
        ∧ Linked base (ds ++ links props rest) u
    | some (_, e) => ∃ u, linkStages env props ds.length rest cfg = .exit e u
        ∧ (e ≠ .aborted → Idle names u) := by
  induction rest generalizing ds cfg with
  | nil => exact ⟨cfg, rfl, by simpa [links] using h⟩
  | cons name rest ih =>
    have hname := hrest name List.mem_cons_self
    have hfound : (cfg.mStages.find? name).isSome :=
      (h.found name).2 (.inl ((hb.found name).2 hname))
    have hwalk := walk_spec (pushStage env) (linkObstacle env names) (Linked base)
      (fun _ e u => e ≠ .aborted → Idle names u) ds
      ((nextStageNames props name).map fun next => (name, next))
      (fun done link cfg hl h hob => by
        obtain ⟨next, -, rfl⟩ := List.mem_map.1 hl
        exact pushStage_next hb hname h hob)
      (fun done link e cfg hl h hob => by
        obtain ⟨next, -, rfl⟩ := List.mem_map.1 hl
        exact pushStage_exit hb hname h hob)
      h
    have hlinks : links props (name :: rest)
        = ((nextStageNames props name).map fun next => (name, next)) ++ links props rest := rfl
    rw [hlinks, firstObstacle_append, linkStages, lookupStage_eq_self cfg name hfound]
    rcases hfirst : firstObstacle (linkObstacle env names) ds
        ((nextStageNames props name).map fun next => (name, next)) with _ | ⟨pre, e⟩
    · rw [hfirst] at hwalk
      obtain ⟨u, hu, hlinked⟩ := hwalk
      rw [hu, Option.none_or, ← List.append_assoc]
      dsimp only
      rw [← List.length_append]
      exact ih (fun n hn => hrest n (List.mem_cons_of_mem name hn)) hlinked
    · rw [hfirst] at hwalk
      obtain ⟨u, hu, hidle⟩ := hwalk
      rw [hu]
      exact ⟨u, rfl, hidle⟩

/-- Here too a failure leaves the names. -/
theorem genNextStages_spec (env : SedaEnv) :
    match firstObstacle (linkObstacle env names) [] (links props names) with
    | some (_, .aborted) => base.genNextStages env props = none
    | some _ => base.genNextStages env props = some (.INITFAIL, { mStageNames := names })
    | none => ∃ cfg, base.genNextStages env props = some (.SUCCESS, cfg)
        ∧ Linked base (links props names) cfg := by
  have hspec := linkStages_spec hb env (fun _ => id) (linked_nil hb)
  rw [List.length_nil, List.nil_append] at hspec
  unfold genNextStages
  rw [hb.names]
  rcases hfirst : firstObstacle (linkObstacle env names) [] (links props names) with _ | ⟨pre, e⟩
  · rw [hfirst] at hspec
    obtain ⟨u, hu, hlinked⟩ := hspec
    rw [hu]
    exact ⟨u, rfl, hlinked⟩
  · rw [hfirst] at hspec
    obtain ⟨u, hu, hidle⟩ := hspec
    rcases e with _ | _ | _ <;> dsimp only <;> rw [hu]
    · exact fail_eq (hidle (by decide))
    · exact fail_eq (hidle (by decide))

end Links

/-! ## The start -/

/-- All that `connect` asks of a stage that has just been made. -/
structure Startable (env : SedaEnv) (names : List Str) (cfg : SedaConfig) : Prop where
  pools : cfg.mThreadPools.size ≠ 0
  idle : Idle names cfg
  qlen : ∀ name st, cfg.stage name = some st → st.qlen = 0
  thPool : ∀ name st, cfg.stage name = some st → env.asserts = true → st.thPool ≠ none

def connectObstacle (env : SedaEnv) (entry : Str × Option Stage) : Option SedaExit :=
  if entry.2.isSome ∧ env.ready entry.1 = false then some .ret else none

theorem stage_eq_of_mem_entries {name : Str} {st : Stage}
    (h : (name, some st) ∈ cfg.mStages.entries) : cfg.stage name = some st := by
  unfold stage
  rw [OrderedMap.mem_entries_iff.1 h]
  rfl

theorem mem_entries_of_stage_eq {name : Str} {st : Stage} (h : cfg.stage name = some st) :
    (name, some st) ∈ cfg.mStages.entries := by
  unfold stage at h
  rw [OrderedMap.mem_entries_iff]
  exact Option.join_eq_some_iff.1 h

/-- A stage that is there connects, if it initializes. -/
theorem Startable.connect_eq {u : SedaConfig} (h : Startable env names cfg)
    {entry : Str × Option Stage} (hmem : entry ∈ cfg.mStages.entries) (n : ℕ) :
    (∃ t, connect env n entry u = .next t ∧ t.mStageNames = u.mStageNames
        ∧ connectObstacle env entry = none)
      ∨ connect env n entry u = .exit .ret u ∧ connectObstacle env entry = some .ret := by
  obtain ⟨name, _ | st⟩ := entry
  · exact .inl ⟨u, rfl, rfl, rfl⟩
  · have hst := stage_eq_of_mem_entries hmem
    have hgo : ¬(env.asserts = true ∧ (st.connected = true ∨ st.thPool = none)) := by
      rintro ⟨hasserts, hcon | hnull⟩
      · rw [h.idle.idle name st hst] at hcon
        cases hcon
      · exact h.thPool name st hst hasserts hnull
    have hqueue : ¬(st.qlen ≠ 0 ∧ st.thPool = none) := fun hq => hq.1 (h.qlen name st hst)
    unfold connect connectObstacle
    dsimp only
    rw [if_neg hgo, if_neg hqueue]
    rcases hready : env.ready name with _ | _
    · exact .inr ⟨rfl, rfl⟩
    · exact .inl ⟨_, rfl, rfl, rfl⟩

/-- The start succeeds if all stages do, and leaves their names if not. -/
theorem Startable.start_spec (h : Startable env names cfg) :
    ((∀ name, (cfg.stage name).isSome → env.ready name = true) →
      ∃ cfg', cfg.start env = some (.SUCCESS, cfg'))
    ∧ (¬(∀ name, (cfg.stage name).isSome → env.ready name = true) →
      cfg.start env = some (.INITFAIL, { mStageNames := names })) := by
  have hwalk := walk_spec (connect env) (fun _ => connectObstacle env)
    (fun _ t => t.mStageNames = names) (fun _ e t => e = .ret ∧ t.mStageNames = names)
    [] cfg.mStages.entries
    (fun done entry t hmem ht hob => by
      rcases h.connect_eq hmem done.length with ⟨u, hu, hnames, -⟩ | ⟨-, hret⟩
      · exact ⟨u, hu, hnames.trans ht⟩
      · exact absurd (hob.symm.trans hret) (by simp))
    (fun done entry e t hmem ht hob => by
      rcases h.connect_eq hmem done.length with ⟨-, -, -, hnone⟩ | ⟨hu, hret⟩
      · exact absurd (hnone.symm.trans hob) (by simp)
      · obtain rfl := Option.some.inj (hret.symm.trans hob)
        exact ⟨t, hu, rfl, ht⟩)
    h.idle.names
  have hready : (∀ name, (cfg.stage name).isSome → env.ready name = true) ↔
      firstObstacle (fun _ => connectObstacle env) [] cfg.mStages.entries = none := by
    rw [firstObstacle_eq_none_iff_forall]
    constructor
    · rintro hall ⟨name, _ | st⟩ hmem
      · rfl
      · have hst := stage_eq_of_mem_entries hmem
        refine if_neg fun hc => ?_
        rw [hall name (by rw [hst]; rfl)] at hc
        exact absurd hc.2 (by decide)
    · intro hall name hsome
      obtain ⟨st, hst⟩ := Option.isSome_iff_exists.1 hsome
      have hob := hall _ (mem_entries_of_stage_eq hst)
      unfold connectObstacle at hob
      split_ifs at hob with hc
      by_contra hno
      exact hc ⟨rfl, Bool.eq_false_iff.2 hno⟩
  rw [hready]
  unfold start
  rw [if_neg fun hc => h.pools hc.2]
  rw [List.length_nil] at hwalk
  rcases hfirst : firstObstacle (fun _ => connectObstacle env) [] cfg.mStages.entries
    with _ | ⟨pre, e⟩
  · rw [hfirst] at hwalk
    obtain ⟨t, ht, -⟩ := hwalk
    rw [ht]
    exact ⟨fun _ => ⟨t, rfl⟩, fun hne => absurd rfl hne⟩
  · rw [hfirst] at hwalk
    obtain ⟨t, ht, rfl, hnames⟩ := hwalk
    rw [ht]
    refine ⟨fun hno => absurd hno (by simp), fun _ => ?_⟩
    dsimp only
    rw [cleanup_eq, hnames]
    rfl

/-- With assertions, a stage that has been made has the pool that it asks for. -/
theorem mem_pools_of_made (hob : firstObstacle (stageObstacle env props pools) [] names = none)
    (hasserts : env.asserts = true) {name t : Str} (hname : name ∈ names)
    (ht : threadId props name = some t) : t ∈ pools := by
  obtain ⟨pre, post, hnames⟩ := List.append_of_mem hname
  have hnone := firstObstacle_eq_none_iff.1 hob pre name post hnames
  unfold stageObstacle at hnone
  rw [ht, List.nil_append] at hnone
  dsimp only at hnone
  by_contra hmem
  by_cases hnil : t = []
  · rw [if_pos hnil] at hnone
    cases hnone
  · have hab : env.asserts = true ∧ t ∉ pools := ⟨hasserts, hmem⟩
    rw [if_neg hnil, if_pos hab] at hnone
    rcases hm : env.makeInstance pre.length name with _ | _ | _ <;> rw [hm] at hnone <;> cases hnone

theorem Linked.startable {base : SedaConfig} {ds : List (Str × Str)} (h : Linked base ds cfg)
    (hb : StagesMade props names pools names base) (hpools : pools ≠ [])
    (hob : firstObstacle (stageObstacle env props pools) [] names = none) :
    Startable env names cfg := by
  have hmade : ∀ name st, cfg.stage name = some st → ∃ i t ns, name ∈ names
      ∧ threadId props name = some t
      ∧ st = { id := i, thPool := base.pool t, nextStageList := ns } := by
    intro name st hst
    rw [h.stages, Option.map_eq_some_iff] at hst
    obtain ⟨u, hu, rfl⟩ := hst
    have hname := (hb.stage_isSome name).1 (by rw [hu]; rfl)
    obtain ⟨i, t, ht, hentry⟩ := hb.made name (some u) (Option.join_eq_some_iff.1 hu)
    obtain rfl := Option.some.inj hentry
    exact ⟨i, t, _, hname, ht, rfl⟩
  refine ⟨h.pools ▸ hb.size_ne_zero hpools, h.idle hb, fun name st hst => ?_,
    fun name st hst hasserts => ?_⟩
  · obtain ⟨i, t, ns, -, -, rfl⟩ := hmade name st hst
    rfl
  · obtain ⟨i, t, ns, hname, ht, rfl⟩ := hmade name st hst
    exact Option.isSome_iff_ne_none.1 ((hb.pools t).2 (mem_pools_of_made hob hasserts hname ht))

/-- The stages that are there are those that were made. -/
theorem Linked.stage_isSome {base : SedaConfig} {ds : List (Str × Str)} (h : Linked base ds cfg)
    (hb : StagesMade props names pools names base) (name : Str) :
    (cfg.stage name).isSome ↔ name ∈ names := by
  rw [h.stages, Option.isSome_map, hb.stage_isSome]

end SedaConfig

end Longda
