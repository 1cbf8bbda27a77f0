import PennDaq.ControllerLink

/-! Which commands leave the locks as they found them. `UnlockConnections` stands
behind the call, so that an exception passes it by; `check_recv_queues` reads the
answer of `LockConnections` the wrong way round, and `sbc_control` takes an MTC that
is locked but not connected. -/
namespace PennDaq.CommandLocks
open Lib.CString
open Lib.Skeleton
open Globals LinkCalls TestCalls MaskCalls ControllerLink

def Balanced (call : Call) : Prop := SameLocks call.before call.after

/- An operation outside of every `try` threw. -/
def Escapes (events : List (Event Op)) : Prop := ∃ ev ∈ events, ev.guarded = false ∧ ev.threw = true

/- The condition on the line, the links before it and what the operations did. -/
def Keeps (before : Links) (events : List (Event Op)) : Job → Prop
  | .holding mtc xl3List _ => Escapes events → mtc = false ∧ ∀ i, inList xl3List i = false
  | .sbcControl _ => before.mtc.fLock = true → before.mtc.fConnected = true
  | .checkRecvQueues => ∀ b, (before.board b).fConnected = false ∧ (before.board b).fLock = false
  | _ => True

def KeepsLocks (around : Sequences.Surroundings) (call : Call) : Prop :=
  Keeps call.before call.events (jobOf around call.input)

theorem sameLocksTrans {a b c : Links} (first : SameLocks a b) (rest : SameLocks b c) : SameLocks a c :=
  rest.trans first

theorem namedFlag (mtc : Bool) (xl3List : BitVec 32) :
    named (sbcFlag mtc) xl3List = ∅ ↔ mtc = false ∧ ∀ i, inList xl3List i = false := by
  rw [Set.eq_empty_iff_forall_notMem]
  constructor
  · intro nothing
    refine ⟨?_, fun i => Bool.eq_false_iff.mpr (nothing (.xl3 i))⟩
    cases mtc with
    | false => rfl
    | true => exact absurd (by decide : sbcFlag true ≠ 0) (nothing .mtc)
  · rintro ⟨rfl, nothing⟩ b
    cases b with
    | mtc => exact fun flag => flag rfl
    | xl3 i => exact Bool.eq_false_iff.mp (nothing i)

theorem flagDisjoint {links : Links} {mtc : Bool} {xl3List : BitVec 32}
    (ok : Lockable links (sbcFlag mtc) xl3List) :
    Disjoint (named (sbcFlag mtc) xl3List) (lockedBoards links) := by
  cases mtc with
  | false => exact (lockableDisjoint (.inl rfl) ok).mpr fun steals => absurd steals.1 (by decide)
  | true => exact (lockableDisjoint (.inr (.inl rfl)) ok).mpr fun steals => absurd steals.1 (by decide)

theorem lockedBetween {before between : Links} {sbc : Int} {xl3List : BitVec 32}
    (ok : (lockConnections before sbc xl3List).1 = 0)
    (same : SameLocks (lockConnections before sbc xl3List).2 between) :
    lockedBoards between = lockedBoards before ∪ named sbc xl3List := by
  rw [lockTaken ((lockSucceeds before sbc xl3List).mp ok)] at same
  exact Eq.trans same (lockedAfterLock before sbc xl3List)

theorem unlockRestores {before between : Links} {sbc sbc' : Int} {xl3List : BitVec 32}
    (boards : named sbc' xl3List = named sbc xl3List)
    (taken : lockedBoards between = lockedBoards before ∪ named sbc xl3List) :
    SameLocks before (unlockConnections between sbc' xl3List) ↔
      Disjoint (named sbc xl3List) (lockedBoards before) := by
  unfold SameLocks
  rw [lockedAfterUnlock, taken, boards, Set.union_sdiff_right, sdiff_eq_left, disjoint_comm]

theorem escapeKeeps {before after : Links} {mtc : Bool} {xl3List : BitVec 32}
    (ok : Lockable before (sbcFlag mtc) xl3List)
    (taken : lockedBoards after = lockedBoards before ∪ named (sbcFlag mtc) xl3List) :
    SameLocks before after ↔ mtc = false ∧ ∀ i, inList xl3List i = false := by
  rw [← namedFlag]
  unfold SameLocks
  rw [taken, Set.union_eq_left]
  refine ⟨fun inside => ?_, fun nothing => by rw [nothing]; exact Set.empty_subset _⟩
  exact Set.subset_empty_iff.mp ((flagDisjoint ok) (le_refl _) inside)

def checked (links : Links) (sbc : Int) (xl3List : BitVec 32) : Links :=
  let locked := lockConnections links sbc xl3List
  if locked.1 ≠ 0 then unlockConnections locked.2 sbc xl3List else locked.2

def afterCheck (link : LinkState) : LinkState := setLock link (link.fConnected && !link.fLock)

theorem checkedSets (links : Links) (sbc : Int) (xl3List : BitVec 32) :
    checked links sbc xl3List =
      setLocks links sbc xl3List ((lockConnections links sbc xl3List).1 == 0) := by
  simp only [checked]
  split
  · rename_i refused
    rw [lockRefused refused, beq_false_of_ne refused]
    rfl
  · rename_i went
    have zero := not_not.mp went
    rw [lockTaken ((lockSucceeds links sbc xl3List).mp zero), zero]
    rfl

theorem checkedBoard {links : Links} {sbc : Int} {xl3List : BitVec 32} (one : Board)
    (only : ∀ b, b ∈ named sbc xl3List ↔ b = one)
    (free : Lockable links sbc xl3List ↔
      (links.board one).fConnected = true ∧ (links.board one).fLock = false) (b : Board) :
    (checked links sbc xl3List).board b =
      if b = one then afterCheck (links.board b) else links.board b := by
  rw [checkedSets]
  obtain ⟨connected, inside, outside⟩ :=
    setLocksBoard links sbc xl3List ((lockConnections links sbc xl3List).1 == 0) b
  split
  · rename_i same
    have zero : ((lockConnections links sbc xl3List).1 == 0) =
        ((links.board b).fConnected && !(links.board b).fLock) := by
      rw [Bool.eq_iff_iff, beq_iff_eq, lockSucceeds, free, same]
      simp
    have lock := inside ((only b).mpr same)
    rw [zero] at lock connected
    rw [zero]
    exact LinkState.ext connected lock
  · rename_i other
    exact LinkState.ext connected (outside fun mem => other ((only b).mp mem))

theorem inBit (i j : Fin maxXL3Con) : inList (1#32 <<< i.val) j = true ↔ j = i := by
  revert i j
  decide

theorem inNothing (j : Fin maxXL3Con) : inList 0#32 j = false := by
  revert j
  decide

theorem checkedMTC (links : Links) (b : Board) :
    (checkMTCQueue links).board b = if b = .mtc then afterCheck (links.board b) else links.board b := by
  have none : ∀ {p : Prop} {j}, inList 0#32 j = true → p :=
    fun mem => absurd mem (Bool.eq_false_iff.mp (inNothing _))
  refine checkedBoard .mtc (fun b => ?_) ⟨fun ok => ok.mtc rfl, fun free => ?_⟩ b
  · cases b with
    | mtc => exact ⟨fun _ => rfl, fun _ => (by decide : (1 : Int) ≠ 0)⟩
    | xl3 i => exact ⟨fun mem => none mem, fun same => Board.noConfusion same⟩
  · exact ⟨fun _ => free, fun two => absurd two (by decide), fun i mem => none mem⟩

theorem checkedXL3 (links : Links) (i : Fin maxXL3Con) (b : Board) :
    (checkXL3Queue links i).board b =
      if b = .xl3 i then afterCheck (links.board b) else links.board b := by
  refine checkedBoard (.xl3 i) (fun b => ?_) ⟨fun ok => ok.xl3s i ((inBit i i).mpr rfl), fun free => ?_⟩ b
  · cases b with
    | mtc => exact ⟨fun mem => absurd rfl mem, fun same => Board.noConfusion same⟩
    | xl3 j => exact (inBit i j).trans (by rw [Board.xl3.injEq])
  · refine ⟨fun one => absurd one (by decide), fun two => absurd two (by decide), fun j mem => ?_⟩
    rw [(inBit i j).mp mem]
    exact free

theorem checkedXL3s (links : Links) (crates : List (Fin maxXL3Con)) (once : crates.Nodup) (b : Board) :
    (crates.foldl checkXL3Queue links).board b =
      if b ∈ crates.map Board.xl3 then afterCheck (links.board b) else links.board b := by
  induction crates generalizing links with
  | nil => rfl
  | cons i crates ih =>
    obtain ⟨new, once⟩ := List.nodup_cons.mp once
    have fresh : Board.xl3 i ∉ crates.map Board.xl3 := by simpa using new
    rw [List.foldl_cons, ih _ once, checkedXL3]
    by_cases same : b = .xl3 i
    · subst same
      simp [fresh]
    · simp [same]

theorem checkedAll (links : Links) (b : Board) :
    (checkRecvQueues links).board b = afterCheck (links.board b) := by
  rw [checkRecvQueues, checkedXL3s _ _ (List.nodup_finRange _), checkedMTC]
  cases b <;> simp

theorem checkKeeps (links : Links) : SameLocks links (checkRecvQueues links) ↔
    ∀ b, (links.board b).fConnected = false ∧ (links.board b).fLock = false := by
  have each : SameLocks links (checkRecvQueues links) ↔
      ∀ b, (afterCheck (links.board b)).fLock = true ↔ (links.board b).fLock = true := by
    unfold SameLocks
    rw [Set.ext_iff]
    refine forall_congr' fun b => ?_
    rw [← checkedAll]
    exact Iff.rfl
  rw [each]
  refine forall_congr' fun b => ?_
  obtain ⟨connected, lock⟩ := links.board b
  cases connected <;> cases lock <;> decide

theorem controlNames : named 1 0#32 = named 2 0#32 := by
  ext b
  cases b with
  | mtc => exact ⟨fun _ => (by decide : (2 : Int) ≠ 0), fun _ => (by decide : (1 : Int) ≠ 0)⟩
  | xl3 i => exact Iff.rfl

theorem controlLocks (links : Links) : (lockConnections links 2 0#32).1 = 0 ↔
    (links.mtc.fConnected = true → links.mtc.fLock = false) := by
  rw [lockSucceeds]
  refine ⟨fun ok => ok.sbcControl rfl, fun free => ⟨fun one => ?_, fun _ => free, fun i mem => ?_⟩⟩
  · exact absurd one (by decide)
  · exact absurd mem (Bool.eq_false_iff.mp (inNothing i))

theorem performedBalanced {around : Sequences.Surroundings} {before after : Links} {job : Job}
    {events : List (Event Op)} {exit : Exit} (performed : Performs around before job after events exit) :
    SameLocks before after ↔ Keeps before events job := by
  cases performed with
  | nothing | noMacro _ => exact ⟨fun _ => trivial, fun _ => rfl⟩
  | free _ same => exact ⟨fun _ => trivial, fun _ => same⟩
  | refused nonzero =>
    rw [lockRefused nonzero]
    refine ⟨fun _ escapes => ?_, fun _ => rfl⟩
    obtain ⟨ev, mem, -⟩ := escapes
    exact absurd mem List.not_mem_nil
  | held zero run same =>
    have quiet := (runsThrew run rfl).not.mp (by decide)
    have apart := flagDisjoint ((lockSucceeds _ _ _).mp zero)
    exact ⟨fun _ escapes => absurd escapes quiet,
      fun _ => (unlockRestores rfl (lockedBetween zero same)).mpr apart⟩
  | escaped zero run same =>
    have escapes := (runsThrew run rfl).mp rfl
    rw [escapeKeeps ((lockSucceeds _ _ _).mp zero) (lockedBetween zero same)]
    exact ⟨fun nothing _ => nothing, fun keeps => keeps escapes⟩
  | sbcRefused nonzero =>
    rw [lockRefused nonzero]
    refine ⟨fun _ _ => ?_, fun _ => rfl⟩
    cases connected : before.mtc.fConnected with
    | true => rfl
    | false => exact absurd ((controlLocks before).mpr (by simp [connected])) nonzero
  | sbcHeld zero run same =>
    rw [unlockRestores controlNames (lockedBetween zero same),
      lockableDisjoint (.inr (.inr rfl)) ((lockSucceeds _ _ _).mp zero)]
    constructor
    · intro free locked
      exact Bool.not_eq_false _ |>.mp fun closed => free ⟨rfl,closed,locked⟩
    · rintro opened ⟨-, closed, locked⟩
      exact absurd (opened locked) (Bool.eq_false_iff.mp closed)
  | sbcEscaped zero run same =>
    exact absurd (runsEnds run) (by simp [ends, sbcControl])
  | checkRecvQueues => exact checkKeeps before

theorem keepsBalanced {around : Sequences.Surroundings} {lines : List Text} {links after : Links}
    {calls : List Call} {exit : Exit} (run : Processes around lines links calls after exit)
    (keeps : ∀ call ∈ calls, KeepsLocks around call) :
    SameLocks links after ∧ ∀ call ∈ calls, Balanced call := by
  induction run with
  | nil => exact ⟨rfl, fun call mem => absurd mem List.not_mem_nil⟩
  | command performed same _ ih =>
    obtain ⟨first, others⟩ := List.forall_mem_cons.mp keeps
    have kept := (performedBalanced performed).mpr first
    obtain ⟨rest, each⟩ := ih others
    exact ⟨sameLocksTrans (sameLocksTrans kept same) rest, List.forall_mem_cons.mpr ⟨kept,each⟩⟩
  | commandThrew performed =>
    obtain ⟨first, -⟩ := List.forall_mem_cons.mp keeps
    have kept := (performedBalanced performed).mpr first
    exact ⟨kept, List.forall_mem_singleton.mpr kept⟩
  | macroRan _ _ _ same _ inner ih =>
    obtain ⟨before, others⟩ := List.forall_mem_append.mp keeps
    obtain ⟨kept, each⟩ := inner before
    obtain ⟨rest, later⟩ := ih (List.forall_mem_cons.mp others).2
    exact ⟨sameLocksTrans (sameLocksTrans kept same) rest,
      List.forall_mem_append.mpr ⟨each,List.forall_mem_cons.mpr ⟨kept,later⟩⟩⟩
  | macroThrew _ _ _ inner =>
    obtain ⟨before, -⟩ := List.forall_mem_append.mp keeps
    obtain ⟨kept, each⟩ := inner before
    exact ⟨kept, List.forall_mem_append.mpr ⟨each,List.forall_mem_singleton.mpr kept⟩⟩

theorem balancedKeeps {around : Sequences.Surroundings} {lines : List Text} {links after : Links}
    {calls : List Call} {exit : Exit} (run : Processes around lines links calls after exit)
    (balanced : ∀ call ∈ calls, Balanced call) : ∀ call ∈ calls, KeepsLocks around call := by
  induction run with
  | nil => exact fun call mem => absurd mem List.not_mem_nil
  | command performed _ _ ih =>
    obtain ⟨first, others⟩ := List.forall_mem_cons.mp balanced
    exact List.forall_mem_cons.mpr ⟨(performedBalanced performed).mp first,ih others⟩
  | commandThrew performed =>
    obtain ⟨first, -⟩ := List.forall_mem_cons.mp balanced
    exact List.forall_mem_singleton.mpr ((performedBalanced performed).mp first)
  | macroRan job _ _ _ _ inner ih =>
    obtain ⟨before, others⟩ := List.forall_mem_append.mp balanced
    have own : ∀ call : Call, call.input = _ → KeepsLocks around call := fun call same => by
      unfold KeepsLocks
      rw [same, job]
      trivial
    exact List.forall_mem_append.mpr ⟨inner before,
      List.forall_mem_cons.mpr ⟨own _ rfl,ih (List.forall_mem_cons.mp others).2⟩⟩
  | macroThrew job _ _ inner =>
    obtain ⟨before, -⟩ := List.forall_mem_append.mp balanced
    refine List.forall_mem_append.mpr ⟨inner before, List.forall_mem_singleton.mpr ?_⟩
    simp only [KeepsLocks, job, Keeps]

/- A line leaves the locks as they were, and so does each command of its macros,
exactly when all of them meet the condition. -/
theorem commandsKeepLocks {around : Sequences.Surroundings} {input : Text} {links after : Links}
    {calls : List Call} {exit : Exit} (run : Processes around [input] links calls after exit) :
    (SameLocks links after ∧ ∀ call ∈ calls, Balanced call) ↔ ∀ call ∈ calls, KeepsLocks around call :=
  ⟨fun balanced => balancedKeeps run balanced.2, keepsBalanced run⟩

def nowhere : Sequences.Surroundings := ⟨fun _ => none,false,fun _ _ => none,fun _ => none⟩

theorem commandsKeepLocksRW :
    ∃ calls after, Processes nowhere ["xl3_rw -c 3".toList] allConnected calls after .passed ∧
      SameLocks allConnected after ∧ ∀ call ∈ calls, Balanced call := by
  have caught : Runs false (.call (xl3RW 3)) [⟨.xl3 3,true,true⟩] .passed :=
    .called Exit.noConfusion (.caught (.throws _))
  have performed : Performs nowhere allConnected (.holding false (bit 3) (xl3RW 3)) _
      [⟨.xl3 3,true,true⟩] .passed := .held (by decide) caught rfl
  have run : Processes nowhere ["xl3_rw -c 3".toList] allConnected _ _ .passed :=
    .command performed rfl .nil
  refine ⟨_, _, run, (commandsKeepLocks run).mpr ?_⟩
  rintro call mem
  rw [List.mem_singleton.mp mem]
  rintro ⟨ev, only, open', -⟩
  rw [List.mem_singleton.mp only] at open'
  contradiction

def ChangesLocks (input : Text) : Prop :=
  ∃ links calls after exit, Processes nowhere [input] links calls after exit ∧ ¬ SameLocks links after

/- An operation of `load_dac` throws, nobody holds a lock before `check_recv_queues`,
and somebody holds that of the disconnected MTC before `sbc_control`. -/
theorem locksChange :
    ChangesLocks "load_dac -c 3".toList ∧ ChangesLocks "check_recv_queues".toList ∧
    ChangesLocks "sbc_control -k".toList := by
  have differ : ∀ {links after : Links} (b : Board),
      (after.board b).fLock ≠ (links.board b).fLock → ¬ SameLocks links after := fun b other same =>
    other (Bool.eq_iff_iff.mpr (Set.ext_iff.mp same b))
  refine ⟨?_, ?_, ?_⟩
  · have thrown : Runs false (.call (Xl3.loadsDac 3)) [⟨.xl3 3,false,true⟩] .threw :=
      .called Exit.noConfusion (.throws _)
    have performed : Performs nowhere allConnected (.holding false (bit 3) (Xl3.loadsDac 3)) _
        [⟨.xl3 3,false,true⟩] .threw := .escaped (by decide) thrown rfl
    exact ⟨allConnected, _, _, _, .commandThrew performed, differ (.xl3 ⟨3,by decide⟩) (by decide)⟩
  · exact ⟨allConnected, _, _, _, .command .checkRecvQueues rfl .nil, differ .mtc (by rw [checkedAll]; decide)⟩
  · have nothing : Runs false (.call (LinkCalls.sbcControl false)) [] .passed :=
      .called Exit.noConfusion (.tried Exit.noConfusion .skip)
    have performed : Performs nowhere ⟨⟨false,true⟩,fun _ => ⟨true,false⟩⟩ (.sbcControl false) _ [] .passed :=
      .sbcHeld (by decide) nothing rfl
    exact ⟨_, _, _, _, .command performed rfl .nil, differ .mtc (by decide)⟩

end PennDaq.CommandLocks
