import EZChain.Consensus.Crashes

/-!
# Certificates after a crash

The row of the runtime state names the highest and the locked certificate by their hashes.  What a
part of the commits of a call leaves in the database is read off by stage: a certificate becomes the
highest one with its second commit and the lock with its third.
-/

namespace EZChain

variable {H : Type} [DecidableEq H]

/-! ## Looking certificates up -/

omit [DecidableEq H] in
theorem mem_of_findHashForValue {ν : Type} [DecidableEq ν] {items : OrderedDict H ν} {target : ν}
    {found : H} (finds : findHashForValue items target = some found) :
    (found, target) ∈ items.entries := by
  obtain ⟨item, found_item, rfl⟩ := Option.map_eq_some_iff.mp finds
  have same : item.2 = target := by simpa using List.find?_some found_item
  exact same ▸ List.mem_of_find?_eq_some found_item

theorem exists_findHashForValue {ν : Type} [DecidableEq ν] {items : OrderedDict H ν} {target : ν}
    {key : H} (held : items.get? key = some target) :
    ∃ found, findHashForValue items target = some found ∧ items.get? found = some target := by
  have finds : ((items.entries.find? fun item => item.2 = target).map Prod.fst).isSome := by
    rw [Option.isSome_map, List.find?_isSome]
    exact ⟨_, (items.get?_eq_some_iff _ _).mp held, by simp⟩
  obtain ⟨found, found_eq⟩ := Option.isSome_iff_exists.mp finds
  exact ⟨found, found_eq,
    (items.get?_eq_some_iff _ _).mpr (mem_of_findHashForValue found_eq)⟩

namespace ConsensusDatabase

/-- The certificates of a store are in its table. -/
structure Holds (store : ConsensusStore H) : Prop where
  highest : ∀ qc ∈ store.highestQc, ∃ hash, store.qcs.get? hash = some qc
  locked : ∀ qc ∈ store.lockedQc, ∃ hash, store.qcs.get? hash = some qc

/-- Certificates are filed under their hashes, and the row only names filed ones. -/
structure Filed [Crypto H] (db : ConsensusDatabase H) : Prop where
  keyed : ∀ hash qc, db.qcs.get? hash = some qc → hash = qcHash qc
  highest : ∀ hash ∈ db.row.highestQcHash, ∃ qc, db.qcs.get? hash = some qc
  locked : ∀ hash ∈ db.row.lockedQcHash, ∃ qc, db.qcs.get? hash = some qc

/-- The database loads the certificates of a store. -/
structure Loads (db : ConsensusDatabase H) (store : ConsensusStore H) : Prop where
  qcs : db.qcs = store.qcs
  highest : db.load.highestQc = store.highestQc
  locked : db.load.lockedQc = store.lockedQc

variable {db : ConsensusDatabase H} {store : ConsensusStore H}

theorem Loads.holds (loads : db.Loads store) : Holds store where
  highest qc mem := by
    rw [← loads.highest] at mem
    obtain ⟨hash, -, held⟩ := Option.bind_eq_some_iff.mp mem
    exact ⟨hash, loads.qcs ▸ held⟩
  locked qc mem := by
    rw [← loads.locked] at mem
    obtain ⟨hash, -, held⟩ := Option.bind_eq_some_iff.mp mem
    exact ⟨hash, loads.qcs ▸ held⟩

theorem bind_findHashForValue {ν : Type} [DecidableEq ν] {items : OrderedDict H ν}
    {value : Option ν} (held : ∀ target ∈ value, ∃ key, items.get? key = some target) :
    (value.bind (findHashForValue items)).bind items.get? = value := by
  cases value with
  | none => rfl
  | some target =>
      obtain ⟨key, held⟩ := held target rfl
      obtain ⟨found, finds, found_held⟩ := exists_findHashForValue held
      simp [finds, found_held]

theorem loads_of_row (holds : Holds store) (row_eq : db.row = store.runtimeState)
    (qcs_eq : db.qcs = store.qcs) : db.Loads store where
  qcs := qcs_eq
  highest := by
    simp only [load, row_eq, qcs_eq]
    exact bind_findHashForValue holds.highest
  locked := by
    simp only [load, row_eq, qcs_eq]
    exact bind_findHashForValue holds.locked

variable [Crypto H]

theorem filed_of_row (keyed : ∀ hash qc, db.qcs.get? hash = some qc → hash = qcHash qc)
    (row_eq : db.row = store.runtimeState) (qcs_eq : db.qcs = store.qcs) : db.Filed where
  keyed := keyed
  highest hash mem := by
    rw [row_eq] at mem
    obtain ⟨qc, -, finds⟩ := Option.bind_eq_some_iff.mp mem
    exact ⟨qc, qcs_eq ▸ (OrderedDict.get?_eq_some_iff _ _ _).mpr (mem_of_findHashForValue finds)⟩
  locked hash mem := by
    rw [row_eq] at mem
    obtain ⟨qc, -, finds⟩ := Option.bind_eq_some_iff.mp mem
    exact ⟨qc, qcs_eq ▸ (OrderedDict.get?_eq_some_iff _ _ _).mpr (mem_of_findHashForValue finds)⟩

omit [Crypto H] in
theorem Loads.congr {other : ConsensusDatabase H} (loads : db.Loads store)
    (row_eq : other.row = db.row) (qcs_eq : other.qcs = db.qcs) : other.Loads store where
  qcs := qcs_eq.trans loads.qcs
  highest := by
    rw [← loads.highest]
    simp only [load, row_eq, qcs_eq]
  locked := by
    rw [← loads.locked]
    simp only [load, row_eq, qcs_eq]

theorem Filed.congr {other : ConsensusDatabase H} (filed : db.Filed) (row_eq : other.row = db.row)
    (qcs_eq : other.qcs = db.qcs) : other.Filed where
  keyed := qcs_eq ▸ filed.keyed
  highest := by
    rw [row_eq, qcs_eq]
    exact filed.highest
  locked := by
    rw [row_eq, qcs_eq]
    exact filed.locked

/-! ## Filing a certificate -/

theorem get?_set_qcHash (ideal : IdealSha256 H) {qcs : OrderedDict H (QC H)}
    (keyed : ∀ hash qc, qcs.get? hash = some qc → hash = qcHash qc) (qc : QC H) {hash : H}
    {held : QC H} (get_eq : qcs.get? hash = some held) :
    (qcs.set (qcHash qc) qc).get? hash = some held := by
  rw [OrderedDict.get?_set]
  split
  next same =>
    rw [keyed hash held get_eq] at same
    rw [qcHash_injective ideal same]
  · exact get_eq

theorem keyed_set {qcs : OrderedDict H (QC H)}
    (keyed : ∀ hash qc, qcs.get? hash = some qc → hash = qcHash qc) (qc : QC H) :
    ∀ hash held, (qcs.set (qcHash qc) qc).get? hash = some held → hash = qcHash held := by
  intro hash held get_eq
  rw [OrderedDict.get?_set] at get_eq
  split at get_eq
  next same =>
    obtain rfl := Option.some.inj get_eq
    exact same.symm
  · exact keyed hash held get_eq

theorem loads_apply_qc (ideal : IdealSha256 H) (filed : db.Filed) (qc : QC H) :
    (db.apply (.qc (qcHash qc) qc)).Filed ∧
      (db.apply (.qc (qcHash qc) qc)).load.highestQc = db.load.highestQc ∧
      (db.apply (.qc (qcHash qc) qc)).load.lockedQc = db.load.lockedQc := by
  have keeps : ∀ named : Option H, (∀ hash ∈ named, ∃ held, db.qcs.get? hash = some held) →
      named.bind (db.qcs.set (qcHash qc) qc).get? = named.bind db.qcs.get? := by
    intro named held
    cases named with
    | none => rfl
    | some hash =>
        obtain ⟨named, get_eq⟩ := held hash rfl
        exact (get?_set_qcHash ideal filed.keyed qc get_eq).trans get_eq.symm
  refine ⟨⟨keyed_set filed.keyed qc, ?_, ?_⟩, keeps _ filed.highest, keeps _ filed.locked⟩
  · intro hash mem
    obtain ⟨held, get_eq⟩ := filed.highest hash mem
    exact ⟨held, get?_set_qcHash ideal filed.keyed qc get_eq⟩
  · intro hash mem
    obtain ⟨held, get_eq⟩ := filed.locked hash mem
    exact ⟨held, get?_set_qcHash ideal filed.keyed qc get_eq⟩

end ConsensusDatabase

/-! ## A part of the commits of a call -/

namespace ConsensusCore

open ConsensusDatabase

variable [Crypto H]

/-- The highest certificate after a part of the commits that save a certificate. -/
def highestWithin (core : ConsensusCore H) (qc : Option (QC H)) (count : ℕ) : Option (QC H) :=
  if count < 2 then core.highestQc else highestAfter core.highestQc qc

/-- The lock after a part of the commits that save a certificate. -/
def lockedWithin (core : ConsensusCore H) (qc : Option (QC H)) (count : ℕ) : Option (QC H) :=
  if count < 3 then core.lockedQc else lockAfter core.lockedQc qc

omit [DecidableEq H] [Crypto H] in
@[simp]
theorem highestWithin_none (core : ConsensusCore H) (count : ℕ) :
    core.highestWithin none count = core.highestQc := by
  rw [highestWithin]
  split <;> rfl

omit [DecidableEq H] [Crypto H] in
@[simp]
theorem lockedWithin_none (core : ConsensusCore H) (count : ℕ) :
    core.lockedWithin none count = core.lockedQc := by
  rw [lockedWithin]
  split <;> rfl

theorem mem_highestWithin {core : ConsensusCore H} {qc : Option (QC H)} {count : ℕ} {current : QC H}
    (mem : current ∈ core.highestWithin qc count) : current ∈ core.highestQc ∨ current ∈ qc := by
  rw [highestWithin] at mem
  split at mem
  · exact .inl mem
  · rw [← highestQc_observeQc] at mem
    exact mem_highestQc_observeQc mem

omit [DecidableEq H] [Crypto H] in
theorem mem_lockedWithin {core : ConsensusCore H} {qc : Option (QC H)} {count : ℕ} {current : QC H}
    (mem : current ∈ core.lockedWithin qc count) : current ∈ core.lockedQc ∨ current ∈ qc := by
  rw [lockedWithin] at mem
  split at mem
  · exact .inl mem
  · exact mem_lockAfter mem

/-- From the second commit on the row was written for a store that has the certificate. -/
theorem row_take_observeQc (core : ConsensusCore H) {db : ConsensusDatabase H}
    (qcs_eq : db.qcs = core.store.qcs) (qc : QC H) {count : ℕ} (second : 2 ≤ count) :
    ∃ store : ConsensusStore H,
      (db.applyAll ((core.observeQcCommits (some qc)).take count)).row = store.runtimeState ∧
      (db.applyAll ((core.observeQcCommits (some qc)).take count)).qcs = store.qcs ∧
      store.qcs = core.store.qcs.set (qcHash qc) qc ∧
      store.highestQc = core.highestWithin (some qc) count ∧
      store.lockedQc = core.lockedWithin (some qc) count := by
  have lock_eq := lockedQc_observeQc core (some qc)
  have highest_eq := highestQc_observeQc core (some qc)
  by_cases whole : qcCommits (some qc) ≤ count
  · have third : 3 ≤ count := by
      simp only [qcCommits] at whole
      split_ifs at whole <;> omega
    rw [List.take_of_length_le (by rw [length_observeQcCommits]; exact whole)]
    refine ⟨(core.observeQc (some qc)).store, ?_, ?_, ?_, ?_, ?_⟩
    case refine_4 => rw [highestWithin, if_neg (by omega)]; exact highest_eq
    case refine_5 => rw [lockedWithin, if_neg (by omega)]; exact lock_eq
    all_goals
      by_cases precommit : qc.phase = .precommit <;>
        simp only [observeQcCommits, ConsensusCore.observeQc, precommit, if_true, if_false]
    · rfl
    · rfl
    · exact congrArg (OrderedDict.set · _ _) qcs_eq
    · exact congrArg (OrderedDict.set · _ _) qcs_eq
    · rfl
    · rfl
  · by_cases precommit : qc.phase = .precommit
    · simp only [qcCommits, precommit, if_true, not_le] at whole
      simp only [highestQc, lockedQc, ConsensusCore.observeQc, precommit, if_true]
        at highest_eq lock_eq
      simp only [observeQcCommits, precommit, if_true]
      rcases count with _ | _ | _ | count
      · omega
      · omega
      · exact ⟨core.store.saveQc (qcHash qc) qc, rfl, congrArg (OrderedDict.set · _ _) qcs_eq, rfl,
          highest_eq, rfl⟩
      · rcases count with _ | _ | _ | count
        case succ.succ.succ => omega
        all_goals
          exact ⟨(core.store.saveQc (qcHash qc) qc).updateLockedQc qc, rfl,
            congrArg (OrderedDict.set · _ _) qcs_eq, rfl, highest_eq, lock_eq⟩
    · simp only [qcCommits, precommit, if_false, not_le] at whole
      obtain rfl : count = 2 := by omega
      simp only [highestQc, lockedQc, ConsensusCore.observeQc, precommit, if_false]
        at highest_eq lock_eq
      simp only [observeQcCommits, precommit, if_false]
      exact ⟨core.store.saveQc (qcHash qc) qc, rfl, congrArg (OrderedDict.set · _ _) qcs_eq, rfl,
        highest_eq, rfl⟩

theorem row_take_observeTc (core : ConsensusCore H) {db : ConsensusDatabase H}
    (qcs_eq : db.qcs = core.store.qcs) (tc : TC H) {count : ℕ} (second : 2 ≤ count) :
    ∃ store : ConsensusStore H,
      (db.applyAll ((core.observeTcCommits (some tc)).take count)).row = store.runtimeState ∧
      (db.applyAll ((core.observeTcCommits (some tc)).take count)).qcs = store.qcs ∧
      store.qcs = core.store.qcs ∧ store.highestQc = core.highestQc ∧
      store.lockedQc = core.lockedQc := by
  rcases count with _ | _ | _ | count
  · omega
  · omega
  · exact ⟨core.store.saveTc (tcHash tc) tc, rfl, qcs_eq, rfl, rfl, rfl⟩
  · rw [List.take_of_length_le (by simp [observeTcCommits, ConsensusStore.saveTcCommits,
      ConsensusStore.savePacemakerStateCommits])]
    exact ⟨(core.observeTc (some tc)).store, rfl, qcs_eq, rfl, rfl, rfl⟩

/-- What a part of the commits that save a quorum certificate loads. -/
theorem loads_take_observeQc (ideal : IdealSha256 H) {core : ConsensusCore H}
    {db : ConsensusDatabase H} (filed : db.Filed) (loads : db.Loads core.store)
    (qc : Option (QC H)) (count : ℕ) :
    (db.applyAll ((core.observeQcCommits qc).take count)).Filed ∧
      (db.applyAll ((core.observeQcCommits qc).take count)).load.highestQc =
        core.highestWithin qc count ∧
      (db.applyAll ((core.observeQcCommits qc).take count)).load.lockedQc =
        core.lockedWithin qc count := by
  have highest_eq : db.load.highestQc = core.highestQc := loads.highest
  have locked_eq : db.load.lockedQc = core.lockedQc := loads.locked
  cases qc with
  | none =>
      refine ⟨?_, ?_, ?_⟩
      · simpa [observeQcCommits] using filed
      · simpa [observeQcCommits] using highest_eq
      · simpa [observeQcCommits] using locked_eq
  | some qc =>
      rcases count with _ | _ | count
      · exact ⟨filed, highest_eq, locked_eq⟩
      · obtain ⟨part_filed, part_highest, part_locked⟩ := loads_apply_qc ideal filed qc
        have first : (core.observeQcCommits (some qc)).take (0 + 1) = [.qc (qcHash qc) qc] := by
          simp only [observeQcCommits]
          rfl
        rw [first]
        exact ⟨part_filed, part_highest.trans highest_eq, part_locked.trans locked_eq⟩
      · obtain ⟨store, row_eq, part_qcs, qcs_eq, store_highest, store_locked⟩ :=
          core.row_take_observeQc loads.qcs qc (Nat.le_add_left 2 count)
        have held : ∀ current : QC H, (∃ hash, core.store.qcs.get? hash = some current) ∨
            current ∈ some qc → ∃ hash, store.qcs.get? hash = some current := by
          rw [qcs_eq]
          rintro current (⟨hash, get_eq⟩ | mem)
          · exact ⟨hash, get?_set_qcHash ideal (loads.qcs ▸ filed.keyed) qc get_eq⟩
          · obtain rfl := Option.some.inj mem
            exact ⟨_, OrderedDict.get?_set_self _ _ _⟩
        have holds : Holds store := by
          constructor
          · intro current mem
            rw [store_highest] at mem
            exact held current ((mem_highestWithin mem).imp_left (loads.holds.highest current))
          · intro current mem
            rw [store_locked] at mem
            exact held current ((mem_lockedWithin mem).imp_left (loads.holds.locked current))
        have part_loads := loads_of_row holds row_eq part_qcs
        refine ⟨filed_of_row ?_ row_eq part_qcs, part_loads.highest.trans store_highest,
          part_loads.locked.trans store_locked⟩
        rw [part_qcs, qcs_eq]
        exact keyed_set (loads.qcs ▸ filed.keyed) qc

/-- A timeout certificate does not change what the database loads. -/
theorem loads_take_observeTc {core : ConsensusCore H} {db : ConsensusDatabase H}
    (filed : db.Filed) (loads : db.Loads core.store) (tc : Option (TC H)) (count : ℕ) :
    (db.applyAll ((core.observeTcCommits tc).take count)).Filed ∧
      (db.applyAll ((core.observeTcCommits tc).take count)).Loads core.store := by
  cases tc with
  | none =>
      simp only [observeTcCommits, List.take_nil, applyAll_nil]
      exact ⟨filed, loads⟩
  | some tc =>
      rcases count with _ | _ | count
      · exact ⟨filed, loads⟩
      · exact ⟨filed.congr rfl rfl, loads.congr rfl rfl⟩
      · obtain ⟨store, row_eq, part_qcs, qcs_eq, store_highest, store_locked⟩ :=
          core.row_take_observeTc loads.qcs tc (Nat.le_add_left 2 count)
        have holds : Holds store := by
          constructor
          · rw [store_highest, qcs_eq]
            exact loads.holds.highest
          · rw [store_locked, qcs_eq]
            exact loads.holds.locked
        have part_loads := loads_of_row holds row_eq part_qcs
        refine ⟨filed_of_row ?_ row_eq part_qcs, part_qcs.trans qcs_eq,
          part_loads.highest.trans store_highest, part_loads.locked.trans store_locked⟩
        rw [part_qcs, qcs_eq, ← loads.qcs]
        exact filed.keyed

/-- What a part of the commits of a call loads. -/
theorem loads_take (ideal : IdealSha256 H) {core : ConsensusCore H} {db : ConsensusDatabase H}
    (filed : db.Filed) (loads : db.Loads core.store) (call : Call H) (count : ℕ) :
    (db.applyAll ((core.commits call).take count)).Filed ∧
      (db.applyAll ((core.commits call).take count)).load.highestQc =
        core.highestWithin (core.observed call) (count - commitsBefore call) ∧
      (db.applyAll ((core.commits call).take count)).load.lockedQc =
        core.lockedWithin (core.observed call) (count - commitsBefore call) := by
  obtain ⟨parts⟩ := core.nonempty_split call
  obtain ⟨row_eq, qcs_eq⟩ := row_take parts db count
  have saving_loads : db.Loads parts.saving.store :=
    ⟨loads.qcs.trans parts.qcs_eq.symm, loads.highest.trans parts.highestQc_eq.symm,
      loads.locked.trans parts.lockedQc_eq.symm⟩
  rcases core.observed_eq_none_or call with absent | absent
  · rw [absent] at row_eq qcs_eq ⊢
    simp only [observeQcCommits, List.nil_append] at row_eq qcs_eq
    obtain ⟨part_filed, part_loads⟩ := loads_take_observeTc filed saving_loads
      (core.observedTc call) (count - parts.before.length)
    have taken := part_loads.congr row_eq qcs_eq
    rw [highestWithin_none, lockedWithin_none]
    exact ⟨part_filed.congr row_eq qcs_eq, taken.highest.trans parts.highestQc_eq,
      taken.locked.trans parts.lockedQc_eq⟩
  · rw [absent] at row_eq qcs_eq
    simp only [observeTcCommits, List.append_nil] at row_eq qcs_eq
    obtain ⟨part_filed, part_highest, part_locked⟩ := loads_take_observeQc ideal filed saving_loads
      (core.observed call) (count - parts.before.length)
    refine ⟨part_filed.congr row_eq qcs_eq, ?_, ?_⟩
    · simp only [load, row_eq, qcs_eq] at part_highest ⊢
      rw [part_highest]
      cases certificate : core.observed call with
      | none => simpa using parts.highestQc_eq
      | some qc =>
          rw [parts.length_before (.inl (by simp [certificate])), highestWithin, highestWithin,
            parts.highestQc_eq]
    · simp only [load, row_eq, qcs_eq] at part_locked ⊢
      rw [part_locked]
      cases certificate : core.observed call with
      | none => simpa using parts.lockedQc_eq
      | some qc =>
          rw [parts.length_before (.inl (by simp [certificate])), lockedWithin, lockedWithin,
            parts.lockedQc_eq]

omit [DecidableEq H] [Crypto H] in
theorem commitsBefore_le (call : Call H) : commitsBefore call ≤ 1 := by
  cases call <;> simp [commitsBefore]

theorem loads_perform (ideal : IdealSha256 H) {core : ConsensusCore H} {db : ConsensusDatabase H}
    (filed : db.Filed) (mirrors : db.Mirrors core.store) (loads : db.Loads core.store)
    (call : Call H) :
    (db.applyAll (core.commits call)).Filed ∧
      (db.applyAll (core.commits call)).Loads (core.perform call).store := by
  have taken := loads_take ideal filed loads call ((core.commits call).length + 4)
  have le := commitsBefore_le call
  rw [List.take_of_length_le (by omega), highestWithin, if_neg (by omega), lockedWithin,
    if_neg (by omega), ← highestQc_perform, ← lockedQc_perform] at taken
  exact ⟨taken.1, (mirrors.perform call).qcs, taken.2.1, taken.2.2⟩

/-- Also a call that raised leaves a database that loads the certificates of the core. -/
theorem Interruption.loads (ideal : IdealSha256 H) {core next : ConsensusCore H} {call : Call H}
    {commits : List (Commit H)} (interruption : core.Interruption call next commits)
    {db : ConsensusDatabase H} (filed : db.Filed) (mirrors : db.Mirrors core.store)
    (loads : db.Loads core.store) :
    (db.applyAll commits).Filed ∧ (db.applyAll commits).Loads next.store := by
  have mirrored := (interruption.mirrors mirrors).qcs
  have highest_eq := interruption.highestQc
  have locked_eq := interruption.lockedQc
  cases interruption with
  | @unprunable _ qc rest saves =>
      obtain ⟨part_filed, part_highest, part_locked⟩ :=
        loads_take_observeQc ideal filed loads (some qc) 3
      rw [saves] at highest_eq locked_eq
      exact ⟨part_filed, mirrored, part_highest.trans highest_eq.symm,
        part_locked.trans locked_eq.symm⟩
  | unrecorded => exact loads_perform ideal filed mirrors loads (.validateProposal _ _)
  | unsaved => exact ⟨filed, loads⟩

theorem loads_performStored (ideal : IdealSha256 H) {core : ConsensusCore H}
    {db : ConsensusDatabase H} (filed : db.Filed) (mirrors : db.Mirrors core.store)
    (loads : db.Loads core.store) (call : Call H) :
    (db.applyAll (core.transactions call)).Filed ∧
      (db.applyAll (core.transactions call)).Loads (core.performStored call).store := by
  rcases core.stored_cases call with ⟨-, performs, -, all, -⟩ | ⟨-, -, interrupted⟩
  · rw [performs, all]
    exact loads_perform ideal filed mirrors loads call
  · exact interrupted.loads ideal filed mirrors loads

end ConsensusCore

end EZChain
