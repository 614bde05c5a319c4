/-
# Which snapshot is the current one

`install_snapshot` writes a marker to the WAL and remembers the path, `build_snapshot` only writes
the file. So the current snapshot is the last installed one.
-/

import Chirps.RaftStorage.SnapshotContent

namespace Chirps.RaftStorage

open Chirps.Library

/-- The builder was made by a storage with this configuration and group. -/
def Op.Owned {SM : Type*} (config : WalStorageConfig) (groupId : GroupId) : Op SM → Prop
  | .buildSnapshot builder _ =>
    builder.path = snapshotPathOf config.snapshotDir groupId builder.info ∧
      builder.chunkSize = config.snapshotChunkSize
  | _ => True

def Op.NoSnapshot {SM : Type*} : Op SM → Prop
  | .installSnapshot _ _ _ | .buildSnapshot _ _ => False
  | _ => True

namespace WalRaftStorage

variable {SM : Type*}

variable {s : WalRaftStorage SM}

theorem getSnapshotBuilder_owned [StateMachine SM] {now : UInt64} {builder : WalSnapshotBuilder}
    (h : s.getSnapshotBuilder now = some builder) (outcome : ReplaceOutcome) :
    (Op.buildSnapshot builder outcome : Op SM).Owned s.config s.groupId := by
  rw [getSnapshotBuilder] at h
  split at h
  · cases h
  · cases h
    exact ⟨rfl, rfl⟩

/-! ## Files, paths and markers -/

def HoldsSnapshot (codec : SnapshotCodec) (s : WalRaftStorage SM) (path : String) : Prop :=
  ∃ info data encoded, snapshotPathOf s.config.snapshotDir s.groupId info = path ∧
    encodeSnapshotFile codec info data s.config.snapshotChunkSize = .ok encoded ∧
    s.files path = some encoded

variable {codec : SnapshotCodec} {t : WalRaftStorage SM}

theorem HoldsSnapshot.mono {path : String} (h : s.HoldsSnapshot codec path)
    (config : t.config = s.config) (groupId : t.groupId = s.groupId)
    (files : t.files = s.files ∨ ∃ info data, s.Writes codec info data t.files) :
    t.HoldsSnapshot codec path := by
  obtain ⟨info, data, encoded, hpath, hencode, hfile⟩ := h
  rcases files with hsame | ⟨info', data', encoded', hencode', hsame⟩
  · exact ⟨info, data, encoded, by rwa [config, groupId], by rwa [config], by rwa [hsame]⟩
  · by_cases hp : path = snapshotPathOf s.config.snapshotDir s.groupId info'
    · exact ⟨info', data', encoded', by rw [config, groupId, hp], by rwa [config],
        by rw [hsame, hp, Function.update_self]⟩
    · exact ⟨info, data, encoded, by rwa [config, groupId], by rwa [config],
        by rwa [hsame, Function.update_of_ne hp]⟩

variable {info : SnapshotMeta} {data : Bytes}

theorem Writes.holdsSnapshot (h : s.Writes codec info data t.files) (config : t.config = s.config)
    (groupId : t.groupId = s.groupId) :
    t.HoldsSnapshot codec (snapshotPathOf t.config.snapshotDir t.groupId info) := by
  obtain ⟨encoded, hencode, hfiles⟩ := h
  exact ⟨info, data, encoded, rfl, by rwa [config],
    by rw [hfiles, config, groupId, Function.update_self]⟩

structure SnapshotsSound (codec : SnapshotCodec) (s : WalRaftStorage SM) : Prop where
  marked : ∀ info, .record (.snapshotApplied info) ∈ s.frames →
    s.HoldsSnapshot codec (snapshotPathOf s.config.snapshotDir s.groupId info)
  current : ∀ path, s.snapshotPath = some path → s.HoldsSnapshot codec path
  paired : s.snapshotMeta.isSome = s.snapshotPath.isSome

theorem SnapshotsSound.of_grows {more : List WalFrame} (sound : s.SnapshotsSound codec)
    (h : s.Grows t more) (files : t.files = s.files ∨ ∃ info data, s.Writes codec info data t.files)
    (markers : ∀ info, .record (.snapshotApplied info) ∈ more →
      t.HoldsSnapshot codec (snapshotPathOf t.config.snapshotDir t.groupId info))
    (remembered : (t.snapshotPath = s.snapshotPath ∧ t.snapshotMeta = s.snapshotMeta) ∨
      ∃ info path, t.snapshotPath = some path ∧ t.snapshotMeta = some info ∧
        t.HoldsSnapshot codec path) : t.SnapshotsSound codec := by
  refine ⟨fun info hmem => ?_, fun path hpath => ?_, ?_⟩
  · rw [h.frames, List.mem_append] at hmem
    rcases hmem with hold | hnew
    · rw [h.config, h.groupId]
      exact (sound.marked info hold).mono h.config h.groupId files
    · exact markers info hnew
  · rcases remembered with ⟨hsame, -⟩ | ⟨info, path', hnew, -, hholds⟩
    · exact (sound.current path (hsame ▸ hpath)).mono h.config h.groupId files
    · cases hnew.symm.trans hpath
      exact hholds
  · rcases remembered with ⟨hpath, hmeta⟩ | ⟨info, path, hpath, hmeta, -⟩
    · rw [hpath, hmeta]
      exact sound.paired
    · rw [hpath, hmeta]
      rfl

theorem mem_of_foldl_markerAfter {frames : List WalFrame} {marker : Option SnapshotMeta}
    (h : frames.foldl markerAfter marker = some info) :
    marker = some info ∨ .record (.snapshotApplied info) ∈ frames := by
  induction frames generalizing marker with
  | nil => exact .inl h
  | cons frame rest ih =>
    rcases ih h with hfirst | hmem
    · rcases frame with header | ⟨entry | vote | info' | logId | logId⟩
      case record.snapshotApplied =>
        cases hfirst
        exact .inr List.mem_cons_self
      all_goals exact .inl hfirst
    · exact .inr (List.mem_cons_of_mem frame hmem)

/-- The path recovery finds in the frames: that of the last marker. -/
def markedPath (s : WalRaftStorage SM) (frames : List WalFrame) : Option String :=
  (frames.foldl markerAfter none).map (snapshotPathOf s.config.snapshotDir s.groupId)

theorem reborn_snapshotPath (s : WalRaftStorage SM) (stateMachine : SM) (kept : List WalFrame)
    (writeFaults : List (Option String)) (syncOutcomes : List SyncOutcome) :
    (s.reborn stateMachine kept writeFaults syncOutcomes).snapshotPath = s.markedPath kept := by
  change (kept.foldl markerAfter none).elim none _ = _
  rw [markedPath]
  cases kept.foldl markerAfter none <;> rfl

section

variable (sound : s.SnapshotsSound codec)
include sound

theorem SnapshotsSound.reborn {kept : List WalFrame}
    (sub : ∀ frame ∈ kept, frame ∈ s.frames) (stateMachine : SM)
    (writeFaults : List (Option String)) (syncOutcomes : List SyncOutcome) :
    (s.reborn stateMachine kept writeFaults syncOutcomes).SnapshotsSound codec := by
  refine ⟨fun info hmem => sound.marked info (sub _ hmem), fun path hpath => ?_, ?_⟩
  · rw [reborn_snapshotPath, markedPath] at hpath
    obtain ⟨info, hinfo, rfl⟩ := Option.map_eq_some_iff.mp hpath
    have hmem := (mem_of_foldl_markerAfter hinfo).resolve_left (by simp)
    exact sound.marked info (sub _ hmem)
  · rw [reborn_snapshotPath, markedPath, Option.isSome_map]
    rfl

theorem SnapshotsSound.installSnapshot [StateMachine SM]
    (info : SnapshotMeta) (data : Bytes) (outcome : ReplaceOutcome) :
    (s.installSnapshot codec info data outcome).2.SnapshotsSound codec := by
  obtain ⟨more, hgrows, honly⟩ := s.grows_installSnapshot codec info data outcome
  have hmarker : ∀ info', WalFrame.record (.snapshotApplied info') ∈ more → info' = info :=
    fun info' hmem => by simpa using honly _ hmem
  rcases s.installSnapshot_any codec info data outcome with
    ⟨files, sm, error, -, hfiles, -, heq⟩ | ⟨files, sm, result, v, -, -, hwrites, hwrite, heq⟩
  · -- stopped before the marker
    rw [heq] at hgrows ⊢
    have hnone : more = [] := List.self_eq_append_right.mp hgrows.frames
    exact sound.of_grows hgrows (hfiles.imp_right fun h => ⟨info, data, h⟩) (by simp [hnone])
      (.inl ⟨rfl, rfl⟩)
  · obtain ⟨sink, pending, added, hv, -⟩ :=
      (s.withRestored files sm).writeFrame_any (.record (.snapshotApplied info)) true
    rw [hwrite] at hv
    obtain rfl : v = _ := hv
    rcases heq with ⟨error, heq⟩ | ⟨-, heq⟩ <;> rw [heq] at hgrows ⊢
    · refine sound.of_grows hgrows (.inr ⟨info, data, hwrites⟩) (fun info' hmem => ?_)
        (.inl ⟨rfl, rfl⟩)
      rw [hmarker info' hmem]
      exact Writes.holdsSnapshot (s := s) hwrites rfl rfl
    · have hholds : (((s.withRestored files sm).withSink sink pending).withInstalled codec info data
          (snapshotPathOf s.config.snapshotDir s.groupId info)).HoldsSnapshot codec
            (snapshotPathOf s.config.snapshotDir s.groupId info) :=
        Writes.holdsSnapshot (s := s) hwrites rfl rfl
      refine sound.of_grows hgrows (.inr ⟨info, data, hwrites⟩) (fun info' hmem => ?_)
        (.inr ⟨info, _, rfl, rfl, hholds⟩)
      rw [hmarker info' hmem]
      exact hholds

theorem SnapshotsSound.step [StateMachine SM] {op : Op SM}
    (recoverable : s.Recoverable) (owned : op.Owned s.config s.groupId)
    (h : s.step codec op = some t) : t.SnapshotsSound codec := by
  obtain ⟨⟨ok, u⟩, hperform, rfl⟩ := Option.map_eq_some_iff.mp h
  have hgrows := grows_perform hperform
  cases hplain : op.isPlain with
  | true =>
    obtain ⟨sink, pending, cache, vote, purged, state, sm, rfl, -⟩ := perform_plain hperform hplain
    obtain ⟨more, hgrows, honly⟩ := hgrows.resolve_right fun ⟨_, _, _, _, _, hop, _⟩ => by
      simp [hop, Op.isPlain] at hplain
    refine sound.of_grows hgrows (.inl rfl) (fun info hmem => ?_) (.inl ⟨rfl, rfl⟩)
    -- no plain operation writes a marker
    have hrecord := honly _ hmem
    cases op <;> simp [Op.isPlain, Op.records] at hplain hrecord
  | false =>
    cases op with
    | installSnapshot info data outcome =>
      cases hperform
      exact sound.installSnapshot info data outcome
    | buildSnapshot builder outcome =>
      cases hperform
      obtain ⟨more, hgrows, honly⟩ := hgrows.resolve_right (by simp)
      refine sound.of_grows hgrows ?_ (fun info hmem => ?_) (.inl ⟨rfl, rfl⟩)
      · rcases buildSnapshot_files codec builder s.files outcome with
          ⟨hfiles, -⟩ | ⟨encoded, hencode, hfiles, -⟩
        · exact .inl hfiles
        · exact .inr ⟨builder.info, builder.data, encoded, owned.2 ▸ hencode, owned.1 ▸ hfiles⟩
      · simpa [Op.records] using honly _ hmem
    | recover sm now kept writeFaults syncOutcomes =>
      obtain ⟨v, hrestart, heq⟩ := Option.map_eq_some_iff.mp hperform
      cases heq
      obtain ⟨-, -, rfl⟩ := recoverable.restart_eq.mp hrestart
      exact sound.reborn (fun _ => List.mem_of_mem_take) _ _ _
    | _ => cases hplain

theorem SnapshotsSound.run [StateMachine SM] {history : List (Op SM)} (recoverable : s.Recoverable)
    (owned : ∀ op ∈ history, op.Owned s.config s.groupId)
    (reach : Library.run (WalRaftStorage.step codec) s history = some t) :
    t.SnapshotsSound codec ∧ t.config = s.config ∧ t.groupId = s.groupId := by
  induction history generalizing s with
  | nil =>
    cases reach
    exact ⟨sound, rfl, rfl⟩
  | cons op rest ih =>
    obtain ⟨next, hstep, hrest⟩ := run_cons_eq_some.mp reach
    have hsame : next.config = s.config ∧ next.groupId = s.groupId := by
      obtain ⟨⟨ok, u⟩, hperform, rfl⟩ := Option.map_eq_some_iff.mp hstep
      rcases grows_perform hperform with
        ⟨more, hgrows, -⟩ | ⟨sm, now, kept, writeFaults, syncOutcomes, -, hrestart⟩
      · exact ⟨hgrows.config, hgrows.groupId⟩
      · obtain ⟨-, -, rfl⟩ := recoverable.restart_eq.mp hrestart
        exact ⟨rfl, rfl⟩
    have hnext := sound.step recoverable (owned op List.mem_cons_self) hstep
    obtain ⟨hsound, hconfig, hgroup⟩ := ih hnext (recoverable.step hstep)
      (fun op' hop' => by
        rw [hsame.1, hsame.2]
        exact owned op' (List.mem_cons_of_mem op hop')) hrest
    exact ⟨hsound, hconfig.trans hsame.1, hgroup.trans hsame.2⟩

end

/-! ## The current snapshot -/

/-- `get_current_snapshot` returns a snapshot exactly when the storage remembers its
path and the file there is the one written for it. -/
theorem SnapshotsSound.getCurrentSnapshot_iff (faithful : codec.Faithful)
    (sound : s.SnapshotsSound codec) (chunks : s.config.snapshotChunkSize < 256 ^ 4)
    {encoded : Bytes}
    (written : encodeSnapshotFile codec info data s.config.snapshotChunkSize = .ok encoded) :
    s.getCurrentSnapshot codec = .ok (some ⟨info, data⟩) ↔
      s.snapshotPath = some (snapshotPathOf s.config.snapshotDir s.groupId info) ∧
        s.files (snapshotPathOf s.config.snapshotDir s.groupId info) = some encoded := by
  have hpaired := sound.paired
  cases hpath : s.snapshotPath with
  | none =>
    have hmeta : s.snapshotMeta = none := by simpa [hpath] using hpaired
    rw [getCurrentSnapshot, hpath, hmeta]
    simp
  | some path =>
    obtain ⟨info', data', encoded', hplace, hencode, hfile⟩ := sound.current path hpath
    rw [hpath] at hpaired
    obtain ⟨current, hcurrent⟩ := Option.isSome_iff_exists.mp hpaired
    have hread := readSnapshotFile_encodeSnapshotFile faithful chunks hencode
    have hresult : s.getCurrentSnapshot codec = .ok (some ⟨info', data'⟩) := by
      rw [getCurrentSnapshot, hcurrent, hpath]
      simp only [hfile, hread]
    rw [hresult]
    constructor
    · intro hsame
      obtain ⟨rfl, rfl⟩ : info' = info ∧ data' = data := by simpa using hsame
      cases hencode.symm.trans written
      exact ⟨by rw [hplace], by rw [hplace, hfile]⟩
    · rintro ⟨hsame, hfile'⟩
      -- the file at the path reads back as what was written
      cases hsame
      cases hfile.symm.trans hfile'
      have hread' := readSnapshotFile_encodeSnapshotFile faithful chunks written
      rw [Except.ok.inj (hread.symm.trans hread')]

/-- It is the current snapshot, live and after a recovery, and covers what a purge up to it removes.
-/
structure Retains (codec : SnapshotCodec) (s : WalRaftStorage SM) (snapshot : Snapshot) :
    Prop where
  live : s.getCurrentSnapshot codec = .ok (some snapshot)
  recovered : ∀ sm now writeFaults syncOutcomes r,
    s.recoverFrom sm now writeFaults syncOutcomes = .ok r →
      r.getCurrentSnapshot codec = .ok (some snapshot)
  covers : ∀ logId t, snapshot.info.lastLogId = some logId → s.purge logId = (.ok (), t) →
    ∃ current, t.getCurrentSnapshot codec = .ok (some current) ∧
      ∀ e : Entry, e.logId.index ≤ logId.index →
        MachineContent.upTo current.info.lastLogId e = true

/-- A written snapshot is retained exactly when the storage remembers its path, the
last marker of the WAL names it, and the file there is still the one written. -/
theorem SnapshotsSound.retains_iff [StateMachine SM] (faithful : codec.Faithful)
    (sound : s.SnapshotsSound codec) (recoverable : s.Recoverable)
    (chunks : s.config.snapshotChunkSize < 256 ^ 4) {encoded : Bytes}
    (written : encodeSnapshotFile codec info data s.config.snapshotChunkSize = .ok encoded) :
    s.Retains codec ⟨info, data⟩ ↔
      s.snapshotPath = some (snapshotPathOf s.config.snapshotDir s.groupId info) ∧
        s.markedPath s.file = some (snapshotPathOf s.config.snapshotDir s.groupId info) ∧
        s.files (snapshotPathOf s.config.snapshotDir s.groupId info) = some encoded := by
  -- what any recovery from the file gives
  obtain ⟨kept, hkept, hlength, hfile⟩ := s.file_eq_take
  have hsub : ∀ frame ∈ s.file, frame ∈ s.frames := by
    rw [hfile]
    exact fun _ => List.mem_of_mem_take
  have hrecover := recoverable.recover_eq (hfile ▸ recoverable.take_ne_nil hkept hlength) hsub
  have hreborn : ∀ sm writeFaults syncOutcomes,
      (s.reborn sm s.file writeFaults syncOutcomes).getCurrentSnapshot codec =
          .ok (some ⟨info, data⟩) ↔
        s.markedPath s.file = some (snapshotPathOf s.config.snapshotDir s.groupId info) ∧
          s.files (snapshotPathOf s.config.snapshotDir s.groupId info) = some encoded := by
    intro sm writeFaults syncOutcomes
    have := (sound.reborn hsub sm writeFaults syncOutcomes).getCurrentSnapshot_iff faithful
      chunks written
    rwa [reborn_snapshotPath] at this
  have hlive := sound.getCurrentSnapshot_iff faithful chunks written
  constructor
  · intro retains
    obtain ⟨hpath, hbytes⟩ := hlive.mp retains.live
    have hafter := retains.recovered s.stateMachine 0 [] [] _ (hrecover s.stateMachine 0 [] [])
    exact ⟨hpath, ((hreborn _ _ _).mp hafter).1, hbytes⟩
  · rintro ⟨hpath, hmarked, hbytes⟩
    have hcurrent := hlive.mpr ⟨hpath, hbytes⟩
    refine ⟨hcurrent, fun sm now writeFaults syncOutcomes r hr => ?_,
      fun logId t hlast hpurge => ?_⟩
    · rw [recoverFrom, show s.walWriter.file = s.file from rfl, hrecover] at hr
      cases hr
      exact (hreborn _ _ _).mpr ⟨hmarked, hbytes⟩
    · -- a purge leaves snapshots alone
      have hperform : s.perform codec (.purge logId) = some (true, t) := by
        rw [perform, hpurge]
        rfl
      obtain ⟨sink, pending, cache, vote, purged, state, sm, rfl, -⟩ :=
        perform_plain hperform rfl
      refine ⟨⟨info, data⟩, hcurrent, fun e he => ?_⟩
      rw [show info.lastLogId = some logId from hlast, MachineContent.upTo]
      exact decide_eq_true he

theorem run_files [StateMachine SM] {history : List (Op SM)}
    (noSnapshot : ∀ op ∈ history, op.NoSnapshot)
    (reach : run (WalRaftStorage.step codec) s history = some t) : t.files = s.files := by
  refine run_invariant_of_along (I := fun u : WalRaftStorage SM => u.files = s.files)
    (G := fun _ op => op.NoSnapshot) (fun u op next hsame hnone hstep => ?_) rfl
    (along_of_forall fun _ op hop => noSnapshot op hop) reach
  obtain ⟨⟨ok, v⟩, hperform, rfl⟩ := Option.map_eq_some_iff.mp hstep
  rw [← hsame]
  funext path
  refine files_of_perform hperform ?_
  cases op with
  | installSnapshot info data outcome => exact hnone.elim
  | buildSnapshot builder outcome => exact hnone.elim
  | _ => exact nofun

theorem snapshotsSound_of_recover_new (codec : SnapshotCodec) {c : Creation SM}
    (h : c.storage = .ok s) :
    s.SnapshotsSound codec ∧ s.config = c.config ∧ s.groupId = c.groupId := by
  obtain ⟨sink, header, rfl, hframes, -⟩ := recover_new h
  have hall : (blank c.config c.groupId c.nodeId c.stateMachine sink c.files).frames =
      [.header header] := hframes
  refine ⟨⟨fun info hmem => ?_, nofun, rfl⟩, rfl, rfl⟩
  simp [hall] at hmem

end WalRaftStorage

open WalRaftStorage

/-- A built snapshot is retained exactly when the remembered path and that of the last marker are
its own, and its file has not been replaced. -/
theorem built_snapshot_retained_iff {SM : Type*} [StateMachine SM] (codec : SnapshotCodec)
    (faithful : codec.Faithful) (c : Creation SM)
    (chunks : c.config.snapshotChunkSize < 256 ^ 4) (history more : List (Op SM))
    (s t u : WalRaftStorage SM) (builder : WalSnapshotBuilder) (outcome : ReplaceOutcome)
    (snapshot : Snapshot) (reach : Visits codec c history s)
    (owned : ∀ op ∈ history ++ .buildSnapshot builder outcome :: more,
      op.Owned c.config c.groupId)
    (built : (builder.buildSnapshot codec s.files outcome).1 = .ok snapshot)
    (taken : s.step codec (.buildSnapshot builder outcome) = some t)
    (later : run (step codec) t more = some u) :
    (u.Retains codec snapshot ↔
      u.snapshotPath = some builder.path ∧ u.markedPath u.file = some builder.path ∧
        u.files builder.path = t.files builder.path) ∧
    ((∀ op ∈ more, op.NoSnapshot) → u.files builder.path = t.files builder.path) := by
  have recoverable := reach.recoverable
  obtain ⟨created, hcreated, hrun⟩ := reach
  obtain ⟨hnew, hconfigNew, hgroupNew⟩ := snapshotsSound_of_recover_new codec hcreated
  -- the whole run, with the build in the middle
  have hwhole : run (step codec) created (history ++ .buildSnapshot builder outcome :: more) =
      some u :=
    run_append_eq_some.mpr ⟨s, hrun, run_cons_eq_some.mpr ⟨t, taken, later⟩⟩
  obtain ⟨hsound, hconfig, hgroup⟩ := hnew.run (Creation.recoverable hcreated)
    (by rwa [hconfigNew, hgroupNew]) hwhole
  have hrecoverable : u.Recoverable := (recoverable.step taken).run later
  rw [hconfigNew] at hconfig
  rw [hgroupNew] at hgroup
  -- the builder's path and chunk size are those of this storage
  obtain ⟨hpath, hchunk⟩ : (Op.buildSnapshot builder outcome : Op SM).Owned c.config c.groupId :=
    owned _ (by simp)
  rcases buildSnapshot_files codec builder s.files outcome with
    ⟨-, error, herror⟩ | ⟨encoded, hencode, hfiles, hsnapshot⟩
  · cases herror.symm.trans built
  · obtain rfl := hsnapshot snapshot built
    have hfile : t.files builder.path = some encoded := by
      have htaken : t.files = (builder.buildSnapshot codec s.files outcome).2.1 := by
        rw [WalRaftStorage.step, perform] at taken
        exact congrArg files (Option.some.inj taken).symm
      rw [htaken, hfiles, Function.update_self]
    have hwritten : encodeSnapshotFile codec builder.info builder.data
        u.config.snapshotChunkSize = .ok encoded := by
      rw [hconfig, ← hchunk]
      exact hencode
    have hretains := hsound.retains_iff faithful hrecoverable (hconfig ▸ chunks) hwritten
    rw [hconfig, hgroup, ← hpath] at hretains
    refine ⟨by rw [hretains, hfile], fun noSnapshot => ?_⟩
    rw [run_files noSnapshot later]

theorem singleCodec_faithful (known : SnapshotMeta) : (singleCodec known).Faithful := by
  have hserialize : ∀ info bytes, (singleCodec known).serialize info = .ok bytes →
      info = known ∧ bytes = [1] := by
    intro info bytes h
    change (if info = known then Except.ok [1] else Except.error "unknown snapshot") = _ at h
    split_ifs at h with hknown
    exact ⟨hknown, (Except.ok.inj h).symm⟩
  refine ⟨fun info bytes h => ?_, fun info h => ?_, fun info bytes h => ?_⟩
  · obtain ⟨rfl, rfl⟩ := hserialize info bytes h
    rfl
  · exact absurd (hserialize info [] h).2 (by decide)
  · obtain ⟨-, rfl⟩ := hserialize info bytes h
    decide

def builtUpTo (logId : Option LogId) : SnapshotMeta :=
  ⟨logId, .empty, "snapshot-" ++ toString (5 : UInt64)⟩

/-- A snapshot of entry 1 is built but not current, and after a purge entry 1 is in neither the log
nor a snapshot. -/
theorem built_snapshot_is_not_current :
    ∃ s builder t r u, Visits (singleCodec (builtUpTo (some ⟨⟨1, 1⟩, 1⟩))) (smallCreation 16)
        [.append [commandAt 1 [10]], .apply [commandAt 1 [10]]] s ∧
      s.getSnapshotBuilder 5 = some builder ∧
      (builder.buildSnapshot (singleCodec (builtUpTo (some ⟨⟨1, 1⟩, 1⟩))) s.files .replaced).1 =
        .ok ⟨builtUpTo (some ⟨⟨1, 1⟩, 1⟩), []⟩ ∧
      s.step (singleCodec (builtUpTo (some ⟨⟨1, 1⟩, 1⟩))) (.buildSnapshot builder .replaced) =
        some t ∧
      t.getCurrentSnapshot (singleCodec (builtUpTo (some ⟨⟨1, 1⟩, 1⟩))) = .ok none ∧
      t.recoverFrom ⟨⟩ 6 [] [] = .ok r ∧
      r.getCurrentSnapshot (singleCodec (builtUpTo (some ⟨⟨1, 1⟩, 1⟩))) = .ok none ∧
      t.purge ⟨⟨1, 1⟩, 1⟩ = (.ok (), u) ∧
      (u.tryGetLogEntries .full).map Prod.fst = some [] ∧
      u.getCurrentSnapshot (singleCodec (builtUpTo (some ⟨⟨1, 1⟩, 1⟩))) = .ok none :=
  ⟨_, _, _, _, _, ⟨_, rfl, rfl⟩, rfl, rfl, rfl, rfl, rfl, rfl, rfl, rfl, rfl⟩

/-- A snapshot is built under the id of the one that was installed before it, and an
entry is appended: it is still the current one. -/
theorem built_snapshot_retained_after_install :
    ∃ s builder t u, Visits (singleCodec (builtUpTo none)) (smallCreation 16)
        [.installSnapshot (builtUpTo none) [] .replaced] s ∧
      s.getSnapshotBuilder 5 = some builder ∧
      s.step (singleCodec (builtUpTo none)) (.buildSnapshot builder .replaced) = some t ∧
      run (step (singleCodec (builtUpTo none))) t [.append [commandAt 1 [10]]] = some u ∧
      u.Retains (singleCodec (builtUpTo none)) ⟨builtUpTo none, []⟩ := by
  -- the run itself, evaluated once
  obtain ⟨s, builder, t, u, reach, hconfig, hgroup, hbuilder, hbuilt, htaken, hlater, hpath,
      hmarked⟩ :
      ∃ s builder t u, Visits (singleCodec (builtUpTo none)) (smallCreation 16)
          [.installSnapshot (builtUpTo none) [] .replaced] s ∧
        s.config = (smallCreation 16).config ∧ s.groupId = (smallCreation 16).groupId ∧
        s.getSnapshotBuilder 5 = some builder ∧
        (builder.buildSnapshot (singleCodec (builtUpTo none)) s.files .replaced).1 =
          .ok ⟨builtUpTo none, []⟩ ∧
        s.step (singleCodec (builtUpTo none)) (.buildSnapshot builder .replaced) = some t ∧
        run (step (singleCodec (builtUpTo none))) t [.append [commandAt 1 [10]]] = some u ∧
        u.snapshotPath = some builder.path ∧ u.markedPath u.file = some builder.path :=
    ⟨_, _, _, _, ⟨_, rfl, rfl⟩, rfl, rfl, rfl, rfl, rfl, rfl, rfl, rfl⟩
  have owned : ∀ op ∈ ([.installSnapshot (builtUpTo none) [] .replaced] ++
      .buildSnapshot builder .replaced :: [.append [commandAt 1 [10]]] :
        List (Op MockStateMachine)),
      op.Owned (smallCreation 16).config (smallCreation 16).groupId := by
    have hown := getSnapshotBuilder_owned hbuilder .replaced
    rw [hconfig, hgroup] at hown
    simpa [Op.Owned] using hown
  obtain ⟨hretained, hfile⟩ := built_snapshot_retained_iff _ (singleCodec_faithful _)
    (smallCreation 16) (by decide) _ _ s t u builder .replaced _ reach owned hbuilt htaken hlater
  exact ⟨s, builder, t, u, reach, hbuilder, htaken, hlater,
    hretained.mpr ⟨hpath, hmarked, hfile (by simp [Op.NoSnapshot])⟩⟩

end Chirps.RaftStorage
