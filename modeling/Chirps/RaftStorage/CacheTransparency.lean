/-
# The size of the cache

The cache decides neither what is written nor what succeeds. A read returns the log of the WAL with
the cached entries on top, so cache sizes do not matter exactly when the folds of a read and of a
replay agree. A log reader has the cache alone.
-/

import Chirps.RaftStorage.AnyOutcome
import Chirps.RaftStorage.LogRefinement

namespace Chirps.RaftStorage

open Chirps.Library

namespace WalRaftStorage

variable {SM : Type*}

def resized (s : WalRaftStorage SM) (size : ℕ) (cache : LogCache) : WalRaftStorage SM :=
  { s with config := { s.config with logCacheSize := size }, logCache := cache }

def SameBut (size : ℕ) (s t : WalRaftStorage SM) : Prop := ∃ cache, t = s.resized size cache

def CallsAgree {ε : Type*} (size : ℕ) (call call' : ε × WalRaftStorage SM) : Prop :=
  call.1 = call'.1 ∧ SameBut size call.2 call'.2

/-! ## The cache decides nothing -/

section Resized

variable (s : WalRaftStorage SM) (size : ℕ) (cache : LogCache)

@[simp] theorem resized_walWriter : (s.resized size cache).walWriter = s.walWriter := rfl

theorem writeFrame_resized (frame : WalFrame) (syncNow : Bool) :
    (s.resized size cache).writeFrame frame syncNow =
      ((s.writeFrame frame syncNow).1, (s.writeFrame frame syncNow).2.resized size cache) := by
  rw [writeFrame, writeFrame, resized_walWriter]
  rcases s.walWriter.append frame syncNow with ⟨_ | _, sink⟩ <;> rfl

theorem syncWal_resized :
    (s.resized size cache).syncWal = (s.syncWal.1, s.syncWal.2.resized size cache) := by
  rw [syncWal, syncWal, resized_walWriter]
  rcases s.walWriter.sync with ⟨_ | _, sink⟩ <;> rfl

theorem appendEntryWithSync_resized (entry : Entry) (syncNow : Bool) :
    CallsAgree size (s.appendEntryWithSync entry syncNow)
      ((s.resized size cache).appendEntryWithSync entry syncNow) := by
  rw [appendEntryWithSync, appendEntryWithSync, writeFrame_resized]
  rcases s.writeFrame (.record (.appendLog entry)) syncNow with ⟨_ | ⟨⟩, t⟩
  · exact ⟨rfl, cache, rfl⟩
  · -- the test on the pending frames does not look at the cache
    change CallsAgree size
      (if syncNow = false ∧ 0 < t.config.fsyncInterval ∧ t.config.fsyncInterval ≤ t.pendingUnsynced
        then (t.recordEntry entry).syncWal else (.ok (), t.recordEntry entry))
      (if syncNow = false ∧ 0 < t.config.fsyncInterval ∧ t.config.fsyncInterval ≤ t.pendingUnsynced
        then ((t.recordEntry entry).resized size (cache.insertEntry size entry)).syncWal
        else (.ok (), (t.recordEntry entry).resized size (cache.insertEntry size entry)))
    rw [syncWal_resized]
    split_ifs <;> exact ⟨rfl, _, rfl⟩

variable (entries : List Entry)

theorem appendEntries_resized :
    CallsAgree size (s.appendEntries entries) ((s.resized size cache).appendEntries entries) := by
  induction entries generalizing s cache with
  | nil => exact ⟨rfl, cache, rfl⟩
  | cons entry rest ih =>
    rw [appendEntries, appendEntries]
    obtain ⟨hresult, cache', hstate⟩ := s.appendEntryWithSync_resized size cache entry false
    rcases hcall : s.appendEntryWithSync entry false with ⟨_ | ⟨⟩, t⟩ <;>
      rcases hcall' : (s.resized size cache).appendEntryWithSync entry false with ⟨_ | ⟨⟩, t'⟩ <;>
      simp only [hcall, hcall', reduceCtorEq] at hresult hstate
    · exact ⟨hresult, cache', hstate⟩
    -- the next entry starts from the cache this one has left
    · subst hstate
      exact ih t cache'

theorem append_resized :
    CallsAgree size (s.append entries) ((s.resized size cache).append entries) := by
  rw [append, append]
  split
  · exact ⟨rfl, cache, rfl⟩
  · obtain ⟨hresult, cache', hstate⟩ := s.appendEntries_resized size cache entries
    rcases hcall : s.appendEntries entries with ⟨_ | ⟨⟩, t⟩ <;>
      rcases hcall' : (s.resized size cache).appendEntries entries with ⟨_ | ⟨⟩, t'⟩ <;>
      simp only [hcall, hcall', reduceCtorEq] at hresult hstate
    · exact ⟨hresult, cache', hstate⟩
    · subst hstate
      change CallsAgree size
        (if t.config.fsyncInterval = 0 then t.syncWal
          else if 0 < t.pendingUnsynced then t.syncWal else (.ok (), t))
        (if t.config.fsyncInterval = 0 then (t.resized size cache').syncWal
          else if 0 < t.pendingUnsynced then (t.resized size cache').syncWal
          else (.ok (), t.resized size cache'))
      rw [syncWal_resized]
      split_ifs <;> exact ⟨rfl, cache', rfl⟩

theorem truncate_resized (logId : LogId) :
    CallsAgree size (s.truncate logId) ((s.resized size cache).truncate logId) := by
  rw [truncate, truncate, writeFrame_resized]
  rcases s.writeFrame (.record (.truncate logId)) true with ⟨_ | ⟨⟩, t⟩ <;> exact ⟨rfl, _, rfl⟩

theorem purge_resized (logId : LogId) :
    CallsAgree size (s.purge logId) ((s.resized size cache).purge logId) := by
  rw [purge, purge, writeFrame_resized]
  rcases s.writeFrame (.record (.purge logId)) true with ⟨_ | ⟨⟩, t⟩ <;> exact ⟨rfl, _, rfl⟩

theorem saveVote_resized (vote : Vote) :
    CallsAgree size (s.saveVote vote) ((s.resized size cache).saveVote vote) := by
  rw [saveVote, saveVote, writeFrame_resized]
  rcases s.writeFrame (.record (.vote vote)) true with ⟨_ | ⟨⟩, t⟩ <;> exact ⟨rfl, _, rfl⟩

theorem applyEntry_resized [StateMachine SM] (entry : Entry) :
    (s.resized size cache).applyEntry entry =
      ((s.applyEntry entry).1, (s.applyEntry entry).2.resized size cache) := by
  rw [applyEntry, applyEntry]
  cases entry.payload with
  | normal command =>
    have hmachine : (s.resized size cache).stateMachine = s.stateMachine := rfl
    simp only [hmachine]
    rcases StateMachine.apply s.stateMachine entry.logId command with ⟨_ | _, sm⟩ <;> rfl
  | _ => rfl

theorem apply_resized [StateMachine SM] :
    (s.resized size cache).apply entries =
      ((s.apply entries).1, (s.apply entries).2.resized size cache) := by
  induction entries generalizing s with
  | nil => rfl
  | cons entry rest ih =>
    rw [apply, apply, applyEntry_resized]
    rcases s.applyEntry entry with ⟨_ | response, t⟩
    · rfl
    · simp only [ih t]
      rcases t.apply rest with ⟨_ | _, u⟩ <;> rfl

theorem installSnapshot_resized [StateMachine SM] (codec : SnapshotCodec) (info : SnapshotMeta)
    (data : Bytes) (outcome : ReplaceOutcome) :
    CallsAgree size (s.installSnapshot codec info data outcome)
      ((s.resized size cache).installSnapshot codec info data outcome) := by
  simp only [installSnapshot, resized]
  cases encodeSnapshotFile codec info data s.config.snapshotChunkSize with
  | error message => exact ⟨rfl, cache, rfl⟩
  | ok encoded =>
    cases outcome with
    | failed message renamed => exact ⟨rfl, cache, rfl⟩
    | replaced =>
      simp only [durablyReplace]
      rcases StateMachine.restore s.stateMachine data with ⟨_ | ⟨⟩, sm⟩
      · exact ⟨rfl, cache, rfl⟩
      -- the marker is the last thing that can fail
      · have hwrite := (s.withRestored (Function.update s.files
          (snapshotPathOf s.config.snapshotDir s.groupId info) (some encoded))
            sm).writeFrame_resized size cache (.record (.snapshotApplied info)) true
        rcases hcall : (s.withRestored (Function.update s.files
          (snapshotPathOf s.config.snapshotDir s.groupId info) (some encoded)) sm).writeFrame
            (.record (.snapshotApplied info)) true with ⟨_ | ⟨⟩, u⟩
        all_goals
          rw [hcall] at hwrite
          simp only [withRestored, resized] at hwrite hcall
          simp only [hwrite, hcall]
          exact ⟨rfl, cache, rfl⟩

theorem tryGetLogEntries_resized {t : WalRaftStorage SM} {range : IndexRange}
    {entries : List Entry} (h : s.tryGetLogEntries range = some (entries, t)) :
    ∃ entries' t', (s.resized size cache).tryGetLogEntries range = some (entries', t') ∧
      SameBut size t t' := by
  cases haccepted : range.accepted with
  | false => simp [tryGetLogEntries_rejected haccepted] at h
  -- the entries may differ; that the call returns depends on the range alone
  | true =>
    obtain ⟨after, heq, -⟩ := s.tryGetLogEntries_eq haccepted
    obtain ⟨after', heq', -⟩ := (s.resized size cache).tryGetLogEntries_eq haccepted
    obtain ⟨-, rfl⟩ := Prod.mk.inj (Option.some.inj (heq.symm.trans h))
    exact ⟨_, _, heq', after', rfl⟩

end Resized

theorem recover_resized {config : WalStorageConfig} {groupId : GroupId} {nodeId : ChirpsNodeId}
    {stateMachine : SM} {now : UInt64} {sink : RealWalSink} {files : SnapshotFiles}
    {t : WalRaftStorage SM} (size : ℕ)
    (h : recover config groupId nodeId stateMachine now sink files = .ok t) :
    ∃ t', recover { config with logCacheSize := size } groupId nodeId stateMachine now sink files =
      .ok t' ∧ SameBut size t t' := by
  have hblank : blank { config with logCacheSize := size } groupId nodeId stateMachine sink files =
      (blank config groupId nodeId stateMachine sink files).resized size .empty := rfl
  have hheader : ((blank config groupId nodeId stateMachine sink files).resized size
      .empty).buildHeader now =
        (blank config groupId nodeId stateMachine sink files).buildHeader now := rfl
  simp only [recover] at h ⊢
  rw [hblank, hheader, writeFrame_resized]
  split
  · rename_i hempty
    rw [if_pos hempty] at h
    rcases hwrite : (blank config groupId nodeId stateMachine sink files).writeFrame
      (.header ((blank config groupId nodeId stateMachine sink files).buildHeader now)) true with
      ⟨_ | ⟨⟩, u⟩
    · simp [hwrite] at h
    · rw [hwrite] at h
      cases h
      exact ⟨_, rfl, _, rfl⟩
  · rename_i hfile
    rw [if_neg hfile] at h
    obtain ⟨haccepts, rfl⟩ := replayWal_eq_ok.mp h
    -- the checks on the frames do not read the cache size
    refine ⟨_, replayWal_eq_ok.mpr ⟨fun frame hframe => ?_, rfl⟩, _, rfl⟩
    have := haccepts frame hframe
    rcases frame with header | ⟨entry | vote | info | logId | logId⟩ <;> exact this

theorem SameBut.perform [StateMachine SM] {codec : SnapshotCodec} {size : ℕ}
    {s s' t : WalRaftStorage SM} {op : Op SM} {ok : Bool} (same : SameBut size s s')
    (h : s.perform codec op = some (ok, t)) :
    ∃ t', s'.perform codec op = some (ok, t') ∧ SameBut size t t' := by
  obtain ⟨cache, rfl⟩ := same
  -- an operation that always returns is settled by how its calls agree
  have hcall : ∀ {ε α : Type} {call call' : Except ε α × WalRaftStorage SM},
      CallsAgree size call call' → some (call.1.toBool, call.2) = some (ok, t) →
      ∃ t', some (call'.1.toBool, call'.2) = some (ok, t') ∧ SameBut size t t' := by
    rintro ε α call call' ⟨hresult, hstate⟩ heq
    cases heq
    exact ⟨call'.2, by rw [hresult], hstate⟩
  cases op with
  | append entries => exact hcall (s.append_resized size cache entries) h
  | truncate logId => exact hcall (s.truncate_resized size cache logId) h
  | purge logId => exact hcall (s.purge_resized size cache logId) h
  | saveVote vote => exact hcall (s.saveVote_resized size cache vote) h
  | apply entries =>
    have happly : CallsAgree size (s.apply entries) ((s.resized size cache).apply entries) := by
      rw [apply_resized]
      exact ⟨rfl, cache, rfl⟩
    exact hcall happly h
  | tryGetLogEntries range =>
    obtain ⟨⟨entries, u⟩, hread, heq⟩ := Option.map_eq_some_iff.mp h
    cases heq
    obtain ⟨entries', t', hread', hsame⟩ := s.tryGetLogEntries_resized size cache hread
    exact ⟨t', Option.map_eq_some_iff.mpr ⟨(entries', t'), hread', rfl⟩, hsame⟩
  | installSnapshot info data outcome =>
    exact hcall (s.installSnapshot_resized size cache codec info data outcome) h
  | buildSnapshot builder outcome =>
    cases h
    exact ⟨_, rfl, cache, rfl⟩
  | recover stateMachine now kept writeFaults syncOutcomes =>
    obtain ⟨u, hrestart, heq⟩ := Option.map_eq_some_iff.mp h
    obtain ⟨rfl, rfl⟩ := Prod.mk.inj heq
    obtain ⟨hkept, hrestart⟩ := Option.ite_none_right_eq_some.mp hrestart
    cases hrecover : WalRaftStorage.recover s.config s.groupId s.nodeId stateMachine now
        (.openFile (s.frames.take kept) writeFaults syncOutcomes) s.files with
    | error message => simp [hrecover, Except.toOption] at hrestart
    | ok v =>
      obtain rfl : v = u := by simpa [hrecover, Except.toOption] using hrestart
      obtain ⟨t', hrecover', hsame⟩ := recover_resized size hrecover
      refine ⟨t', ?_, hsame⟩
      have hrestart' : (s.resized size cache).restart stateMachine now kept writeFaults
          syncOutcomes = some t' :=
        (if_pos hkept).trans (congrArg Except.toOption hrecover')
      rw [WalRaftStorage.perform, hrestart']
      rfl

theorem SameBut.stepOk [StateMachine SM] {codec : SnapshotCodec} {size : ℕ}
    {s s' t : WalRaftStorage SM} {op : Op SM} (same : SameBut size s s')
    (h : s.stepOk codec op = some t) : ∃ t', s'.stepOk codec op = some t' ∧ SameBut size t t' := by
  obtain ⟨t', hperform, hsame⟩ := same.perform (stepOk_eq_some.mp h)
  exact ⟨t', stepOk_eq_some.mpr hperform, hsame⟩

theorem LogSound.run_cache_full [StateMachine SM] {codec : SnapshotCodec}
    {s t : WalRaftStorage SM} {history : List (Op SM)} (sound : s.LogSound)
    (full : s.logCache.entries = replayLog s.frames)
    (reach : run (WalRaftStorage.stepOk codec) s history = some t)
    (room : t.frames.length ≤ s.config.logCacheSize) : t.logCache.entries = replayLog t.frames := by
  induction history generalizing s with
  | nil =>
    cases reach
    exact full
  | cons op rest ih =>
    obtain ⟨next, hstep, hrest⟩ := run_cons_eq_some.mp reach
    have hextends := sound.extends_stepOk hstep
    have hnext := sound.of_extends hextends
    obtain ⟨-, hframes, -⟩ := hnext.run_stepOk hrest
    refine ih hnext (hextends.cache_full full ?_) hrest (hextends.config ▸ room)
    -- the WAL only grows, so there is room after every step
    rw [hframes, List.length_append, hextends.frames] at room
    omega

end WalRaftStorage

open WalRaftStorage

variable {SM : Type*}

def Creation.withCacheSize (c : Creation SM) (size : ℕ) : Creation SM :=
  { c with config := { c.config with logCacheSize := size } }

theorem Reaches.withCacheSize [StateMachine SM] {codec : SnapshotCodec} {c : Creation SM}
    {history : List (Op SM)} {s : WalRaftStorage SM} (h : Reaches codec c history s)
    (size : ℕ) : ∃ t, Reaches codec (c.withCacheSize size) history t ∧ SameBut size s t := by
  obtain ⟨created, hcreated, hrun⟩ := h
  obtain ⟨created', hcreated', hsame⟩ := recover_resized size hcreated
  obtain ⟨t, hrun', hsame'⟩ := run_simulation (g := stepOk codec) (R := SameBut size)
    (fun _ _ _ _ hs hstep => hs.stepOk hstep) hsame hrun
  exact ⟨t, ⟨created', hcreated', hrun'⟩, hsame'⟩

def Op.isRead : Op SM → Bool
  | .tryGetLogEntries _ => true
  | _ => false

def writes (history : List (Op SM)) : List (Op SM) := history.filter fun op => !op.isRead

theorem records_writes (history : List (Op SM)) :
    (writes history).flatMap Op.records = history.flatMap Op.records := by
  induction history with
  | nil => rfl
  | cons op rest ih =>
    rw [writes, List.filter_cons]
    split
    · rw [List.flatMap_cons, List.flatMap_cons, ← ih, writes]
    · rename_i hread
      have hnone : op.records = [] := by
        cases op <;> simp [Op.isRead] at hread
        rfl
      rw [List.flatMap_cons, hnone, List.nil_append, ← ih, writes]

variable [StateMachine SM] {codec : SnapshotCodec} {c : Creation SM} {history : List (Op SM)}
  {s : WalRaftStorage SM}

section

variable (h : Reaches codec c history s)
include h

theorem Reaches.config : s.config = c.config := by
  obtain ⟨created, hcreated, hrun⟩ := h
  obtain ⟨-, -, hconfig, -⟩ := (logSound_of_recover_new hcreated).run_stepOk hrun
  obtain ⟨sink, header, rfl, -⟩ := recover_new hcreated
  exact hconfig

theorem Reaches.logs :
    walLog s.frames = walLog (historyFrames history) ∧
      replayLog s.frames = replayLog (historyFrames history) := by
  obtain ⟨-, header, hframes⟩ := h.sound
  rw [hframes]
  exact ⟨rfl, rfl⟩

theorem Reaches.view_of_no_cache (none : c.config.logCacheSize = 0) :
    s.view = walLog (historyFrames history) := by
  have hsound := h.sound.1
  have hsize := hsound.cache_size
  rw [h.config, none] at hsize
  rw [view_eq_walLog hsound.settled, h.logs.1]
  intro k e hk
  rw [IndexedEntries.lookup_eq_none_of_size_eq_zero (Nat.le_zero.mp hsize)] at hk
  cases hk

theorem Reaches.view_of_room
    (room : s.frames.length ≤ c.config.logCacheSize) :
    s.view = replayLog (historyFrames history) := by
  have hfull : s.logCache.entries = replayLog s.frames := by
    obtain ⟨created, hcreated, hrun⟩ := h
    have hsound := logSound_of_recover_new hcreated
    obtain ⟨sink, header, rfl, hframes, -⟩ := recover_new hcreated
    refine hsound.run_cache_full ?_ hrun room
    rw [show (blank c.config c.groupId c.nodeId c.stateMachine sink c.files).frames =
      [.header header] from hframes]
    rfl
  ext1 k
  rw [view, h.sound.1.settled.file_eq, IndexedEntries.lookup_overlay, hfull, ← h.logs.2]
  cases hk : (replayLog s.frames).lookup k with
  | some e => rfl
  | none =>
    -- what replay does not have, a read does not find either
    cases hwal : (walLog s.frames).lookup k with
    | none => rfl
    | some e =>
      rw [walLog_sub_replayLog _ _ _ hwal] at hk
      cases hk

end

variable (codec c history) in
/-- Reads depend neither on the size of the cache nor on the reads before. -/
def CacheTransparent : Prop :=
  ∀ size size' history₁ history₂ s t, writes history₁ = writes history →
    writes history₂ = writes history → Reaches codec (c.withCacheSize size) history₁ s →
    Reaches codec (c.withCacheSize size') history₂ t →
    ∀ range, (s.tryGetLogEntries range).map Prod.fst = (t.tryGetLogEntries range).map Prod.fst

omit [StateMachine SM] in
theorem historyFrames_of_writes {history₁ history₂ : List (Op SM)}
    (h : writes history₁ = writes history₂) : historyFrames history₁ = historyFrames history₂ := by
  rw [historyFrames, historyFrames, ← records_writes history₁, h, records_writes]

/-- Whether the marker of a snapshot covers index `k` and nothing has been appended there since. -/
def coveredBy (k : UInt64) (covered : Bool) : RaftWalRecord → Bool
  | .appendLog entry => entry.logId.index ≠ k && covered
  | .snapshotApplied info => covered || info.lastLogId.any (k ≤ ·.index)
  | _ => covered

/-- A read finds what replay finds, except where a marker covers it. -/
theorem lookup_foldl_readRecord_of_covered {k : UInt64} (records : List RaftWalRecord)
    {m m' : IndexedEntries} {covered : Bool}
    (h : m.lookup k = if covered then none else m'.lookup k) :
    ((records.map .record).foldl (readRecord .full) m).lookup k =
      if records.foldl (coveredBy k) covered then none
      else ((records.map .record).foldl replayRecord m').lookup k := by
  induction records generalizing m m' covered with
  | nil => exact h
  | cons record rest ih =>
    refine ih ?_
    cases record with
    | appendLog entry =>
      by_cases hk : entry.logId.index = k <;>
        simp [readRecord, replayRecord, coveredBy, IndexedEntries.lookup_insert, hk, h]
    | vote vote => exact h
    | snapshotApplied info =>
      cases hlast : info.lastLogId with
      | none => simp [readRecord, replayRecord, coveredBy, hlast, h]
      | some logId =>
        by_cases hk : k ≤ logId.index <;>
          simp [readRecord, replayRecord, coveredBy, IndexedEntries.lookup_removeWhere,
            hlast, hk, h]
    | truncate logId =>
      simp only [readRecord, replayRecord, coveredBy, IndexedEntries.lookup_removeWhere, h]
      grind
    | purge logId =>
      simp only [readRecord, replayRecord, coveredBy, IndexedEntries.lookup_removeWhere, h]
      grind

omit [StateMachine SM] in
theorem walLog_eq_replayLog_iff (history : List (Op SM)) :
    walLog (historyFrames history) = replayLog (historyFrames history) ↔
      ∀ k, ((replayLog (historyFrames history)).lookup k).isSome = true →
        (history.flatMap Op.records).foldl (coveredBy k) false = false := by
  have hlookup (k : UInt64) := @lookup_foldl_readRecord_of_covered k (history.flatMap Op.records)
    .empty .empty false rfl
  constructor
  · intro hsame k hk
    have h := hlookup k
    rw [show ((history.flatMap Op.records).map WalFrame.record).foldl (readRecord .full) .empty =
      _ from hsame] at h
    split at h
    · simp [h] at hk
    · rename_i huncovered
      exact Bool.eq_false_iff.mpr huncovered
  · intro huncovered
    ext1 k
    refine (hlookup k).trans ?_
    split
    · rename_i hcovered
      by_contra hne
      rw [huncovered k (Option.isSome_iff_ne_none.mpr (Ne.symm hne))] at hcovered
      cases hcovered
    · rfl

/-- Reads are sorted, and the same for all cache sizes exactly when the folds of the two agree: no
marker of an installed snapshot after an entry's last append covers an entry that replay keeps. -/
theorem log_cache_transparent_iff (codec : SnapshotCodec) (c : Creation SM)
    (history : List (Op SM)) (s : WalRaftStorage SM) (reach : Reaches codec c history s) :
    (∀ range entries t, s.tryGetLogEntries range = some (entries, t) →
      entries.Pairwise fun a b => a.logId.index < b.logId.index) ∧
    (CacheTransparent codec c history ↔
      walLog (historyFrames history) = replayLog (historyFrames history)) ∧
    (walLog (historyFrames history) = replayLog (historyFrames history) ↔
      ∀ k, ((replayLog (historyFrames history)).lookup k).isSome = true →
        (history.flatMap Op.records).foldl (coveredBy k) false = false) := by
  refine ⟨fun range entries t hread => ?_, ⟨fun transparent => ?_, fun hfolds => ?_⟩,
    walLog_eq_replayLog_iff history⟩
  · have hview := s.read_eq range
    rw [hread] at hview
    split at hview
    · cases hview
      exact s.view.pairwise_valuesIn range
    · cases hview
  · -- compare no cache with a cache that holds everything
    obtain ⟨bare, hbare, -⟩ := reach.withCacheSize 0
    obtain ⟨roomy, hroomy, cache, rfl⟩ := reach.withCacheSize s.frames.length
    have hsame := transparent _ _ _ _ _ _ rfl rfl hbare hroomy .full
    rw [read_eq, read_eq, hbare.view_of_no_cache rfl, hroomy.view_of_room le_rfl] at hsame
    exact IndexedEntries.eq_of_valuesIn_full (Option.some.inj hsame)
  · have hview : ∀ size history' t, writes history' = writes history →
        Reaches codec (c.withCacheSize size) history' t →
        t.view = walLog (historyFrames history) := by
      intro size history' t hwrites ht
      have hframes := historyFrames_of_writes hwrites
      rw [view_eq_walLog ht.sound.1.settled, ht.logs.1, hframes]
      rw [ht.logs.1, hframes, hfolds, ← hframes, ← ht.logs.2]
      exact ht.sound.1.cache_sub
    intro size size' history₁ history₂ s₁ s₂ hwrites hwrites' hreach hreach' range
    rw [read_eq, read_eq, hview _ _ _ hwrites hreach, hview _ _ _ hwrites' hreach']

def snapshotUpTo (index : UInt64) : SnapshotMeta := ⟨some ⟨⟨1, 1⟩, index⟩, .empty, "covering"⟩

/-- After a snapshot is installed over entry 1, a storage with a cache still returns
the entry and one without does not. -/
theorem installed_snapshot_hides_uncached_entries :
    ∃ s t, Reaches (singleCodec (snapshotUpTo 1)) (smallCreation 16)
        [.append [commandAt 1 [10]], .installSnapshot (snapshotUpTo 1) [] .replaced] s ∧
      Reaches (singleCodec (snapshotUpTo 1)) (smallCreation 0)
        [.append [commandAt 1 [10]], .installSnapshot (snapshotUpTo 1) [] .replaced] t ∧
      (s.tryGetLogEntries .full).map Prod.fst = some [commandAt 1 [10]] ∧
      (t.tryGetLogEntries .full).map Prod.fst = some [] ∧
      ¬ CacheTransparent (singleCodec (snapshotUpTo 1)) (smallCreation 16)
        [.append [commandAt 1 [10]], .installSnapshot (snapshotUpTo 1) [] .replaced] := by
  refine ⟨_, _, ⟨_, rfl, rfl⟩, ⟨_, rfl, rfl⟩, rfl, rfl, fun transparent => ?_⟩
  have hsame : some [commandAt 1 [10]] = some [] :=
    transparent 16 0 _ _ _ _ rfl rfl ⟨_, rfl, rfl⟩ ⟨_, rfl, rfl⟩ .full
  cases hsame

/-- When the covered entry has been purged first, every cache size gives the same
reads. -/
theorem log_cache_transparent_after_purge :
    CacheTransparent (singleCodec (snapshotUpTo 1)) (smallCreation 16)
      [.append [commandAt 1 [10], commandAt 2 [20]], .purge ⟨⟨1, 1⟩, 1⟩,
        .installSnapshot (snapshotUpTo 1) [] .replaced] :=
  (log_cache_transparent_iff _ _ _ _ ⟨_, rfl, rfl⟩).2.1.mpr
    (IndexedEntries.eq_of_valuesIn_full (by decide))

/-! ## Log readers -/

theorem getLogReader_tryGetLogEntries {SM : Type*} (s : WalRaftStorage SM) (range : IndexRange) :
    s.getLogReader.tryGetLogEntries range = s.logCache.entries.valuesIn range :=
  s.logCache.entries.filter_valuesIn_full range

theorem view_eq_cache_iff {SM : Type*} {s : WalRaftStorage SM} :
    s.view = s.logCache.entries ↔
      ∀ k, ((walLog s.file).lookup k).isSome = true →
        (s.logCache.entries.lookup k).isSome = true := by
  constructor
  · intro hview k hwal
    rw [← hview, view, IndexedEntries.lookup_overlay]
    cases s.logCache.entries.lookup k with
    | none => exact hwal
    | some entry => rfl
  · intro hcached
    ext1 k
    rw [view, IndexedEntries.lookup_overlay]
    cases hcache : s.logCache.entries.lookup k with
    | some entry => rfl
    | none =>
      -- the WAL has nothing to add here
      by_contra hsome
      have hwal := hcached k (Option.isSome_iff_ne_none.mpr hsome)
      rw [hcache] at hwal
      cases hwal

/-- A log reader answers as the storage, if and only if no entry that the WAL still has is missing
from the cache when it is made. -/
theorem log_reader_sees_log_iff {SM : Type*} (s : WalRaftStorage SM) :
    (∀ range entries t, s.tryGetLogEntries range = some (entries, t) →
      s.getLogReader.tryGetLogEntries range = entries) ↔
      ∀ k, ((walLog s.file).lookup k).isSome = true →
        (s.logCache.entries.lookup k).isSome = true := by
  rw [← view_eq_cache_iff]
  constructor
  · intro hreads
    obtain ⟨cache, hread, -⟩ := s.tryGetLogEntries_eq IndexRange.full_accepted
    have hsame := hreads .full _ _ hread
    rw [getLogReader_tryGetLogEntries] at hsame
    exact IndexedEntries.eq_of_valuesIn_full hsame.symm
  · intro hview range entries t hread
    have hstorage := s.read_eq range
    rw [hread, hview] at hstorage
    split at hstorage
    · rw [getLogReader_tryGetLogEntries]
      exact (Option.some.inj hstorage).symm
    · cases hstorage

/-- With a cache of one entry, a reader made after two entries have been appended does not
have the first, which the storage returns. -/
theorem log_reader_misses_evicted_entry :
    ∃ s, Reaches (singleCodec emptySnapshot) (smallCreation 1)
        [.append [commandAt 1 [10], commandAt 2 [20]]] s ∧
      (s.tryGetLogEntries .full).map Prod.fst = some [commandAt 1 [10], commandAt 2 [20]] ∧
      s.getLogReader.tryGetLogEntries .full = [commandAt 2 [20]] :=
  ⟨_, ⟨_, rfl, rfl⟩, rfl, rfl⟩

end Chirps.RaftStorage
