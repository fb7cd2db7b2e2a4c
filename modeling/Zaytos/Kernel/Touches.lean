import Zaytos.Kernel.Machine

set_option autoImplicit false

/-! What the calls leave alone: typed input, and of the programs everything but the caller's
table. -/
namespace Zaytos.Kernel

/-- The descriptors on which `sys_read` comes to what is typed: whatever has no inode and is neither
an end of a pipe to read from, nor a socket, nor the screen. -/
def File.readsKeys : File → Bool
  | .terminal _ | .input | .pipeWrite _ | .shm _ => true
  | _ => false

def Loop.readsKeys : Loop → Option Nat
  | .terminal fd _ | .input fd _ => some fd
  | _ => none

def Call.maps : Call → Bool
  | .mmap .. | .brk _ => true
  | _ => false

variable {file other : File} {t' : FileTable} {fd : Nat} {k'' : System} {c : Call}

namespace FileTable

variable {t : FileTable}

theorem mem_set {fd : Fin maxOpenFiles} {entry : Option File}
    (mem : file ∈ (t.set fd entry).files) : file ∈ t.files ∨ entry = some file := by
  have both : file ∈ (t.files : Multiset File) + (entry.toList : Multiset File) := by
    rw [← coe_files_set]
    exact Multiset.mem_add.mpr (.inl mem)
  rcases Multiset.mem_add.mp both with old | new
  · exact .inl old
  · exact .inr (Option.mem_toList.mp new)

theorem mem_insert
    (ok : t.insert file = .ok (fd, t')) (mem : other ∈ t'.files) : other ∈ t.files ∨ other = file := by
  unfold insert at ok
  split at ok
  · obtain ⟨-, rfl⟩ := Prod.mk.inj (Except.ok.inj ok)
    exact (mem_set mem).imp_right fun same => (Option.some.inj same).symm
  · cases ok

theorem mem_remove
    (ok : t.remove fd = .ok (file, t')) (mem : other ∈ t'.files) : other ∈ t.files := by
  have files := remove_ok ok
  have more : other ∈ (t.files : Multiset File) := by
    rw [files]
    exact Multiset.mem_cons_of_mem (Multiset.mem_coe.mpr mem)
  exact more

theorem mem_replace (mem : other ∈ (t.replace fd file).2.files) :
    other ∈ t.files ∨ other = file := by
  unfold replace at mem
  split at mem
  · exact (mem_set mem).imp_right fun same => (Option.some.inj same).symm
  · exact .inl mem

theorem input_mem_advance {bytes : Nat} (mem : File.input ∈ (t.advance fd bytes).files) :
    File.input ∈ t.files := by
  unfold advance at mem
  split at mem
  · rename_i small
    rcases mem_set mem with old | new
    · exact old
    · obtain ⟨file, entry, advanced⟩ := Option.map_eq_some_iff.mp new
      have same : file = .input := by
        cases file <;> first | rfl | cases advanced
      exact List.mem_filterMap.mpr ⟨_, List.mem_finRange _, same ▸ entry⟩
  · exact mem

end FileTable

namespace System

/-- Of what the programs are, and of what is typed, only the caller's table is another. It gains the
descriptor of the input in the first slot only. -/
structure Touches (k : System) (slot : Slot) (k' : System) : Prop where
  input : k'.input = k.input
  quarantine : k'.quarantine = k.quarantine
  table : ∃ t : FileTable, k'.processes = (k.setFiles slot t).processes ∧
    (File.input ∈ t.files → File.input ∈ (k.files slot).files ∨ slot = 0)

variable {k k' : System} {slot : Slot}

theorem setFiles_files (k : System) (slot : Slot) :
    (k.setFiles slot (k.files slot)).processes = k.processes := by
  unfold setFiles modifyTop System.files
  dsimp only
  cases top : k.processes slot with
  | nil => exact (congrArg _ top.symm).trans (Function.update_eq_self _ _)
  | cons p rest => exact (congrArg _ top.symm).trans (Function.update_eq_self _ _)

namespace Touches

theorem of_same (processes : k'.processes = k.processes) (input : k'.input = k.input)
    (quarantine : k'.quarantine = k.quarantine) : Touches k slot k' :=
  ⟨input, quarantine, k.files slot, by rw [processes, setFiles_files], .inl⟩

theorem refl (k : System) (slot : Slot) : Touches k slot k := of_same rfl rfl rfl

theorem andThen (first : Touches k slot k') (processes : k''.processes = k'.processes)
    (input : k''.input = k'.input) (quarantine : k''.quarantine = k'.quarantine) :
    Touches k slot k'' := by
  obtain ⟨t, same, more⟩ := first.table
  exact ⟨input.trans first.input, quarantine.trans first.quarantine, t, processes.trans same, more⟩

theorem after (rest : Touches k' slot k'') (processes : k'.processes = k.processes)
    (input : k'.input = k.input) (quarantine : k'.quarantine = k.quarantine) :
    Touches k slot k'' := by
  obtain ⟨t, same, more⟩ := rest.table
  have files : k'.files slot = k.files slot := by
    unfold System.files
    rw [processes]
  refine ⟨rest.input.trans input, rest.quarantine.trans quarantine, t, same.trans ?_, files ▸ more⟩
  unfold System.setFiles modifyTop
  rw [processes]

theorem setFiles {t : FileTable}
    (more : File.input ∈ t.files → File.input ∈ (k.files slot).files ∨ slot = 0) :
    Touches k slot (k.setFiles slot t) := ⟨rfl, rfl, t, rfl, more⟩

theorem insertFile {file : File} {fd : Nat} (ok : k.insertFile slot file = .ok (fd, k'))
    (first : file = .input → slot = 0) : Touches k slot k' := by
  unfold System.insertFile at ok
  split at ok
  · rename_i inserted
    obtain ⟨-, rfl⟩ := Prod.mk.inj (Except.ok.inj ok)
    exact .setFiles fun mem =>
      (FileTable.mem_insert inserted mem).imp_right fun same => first same.symm
  · cases ok

theorem replaceFile (k : System) (slot : Slot) (fd : Nat) {file : File} (other : file ≠ .input) :
    Touches k slot (k.replaceFile slot fd file) := by
  have replaced : Touches k slot (k.setFiles slot ((k.files slot).replace fd file).2) :=
    .setFiles fun mem => (FileTable.mem_replace mem).imp_right fun same => absurd same.symm other
  unfold System.replaceFile
  dsimp only
  split
  · exact replaced.andThen rfl rfl rfl
  · exact replaced

end Touches

section Calls

variable (k)

theorem readFromPipe_touches (pipe count : Nat) (valid : Bool) :
    Touches k slot (k.readFromPipe pipe count valid).2 := by
  unfold readFromPipe
  split
  · exact .refl k slot
  · split
    · exact .of_same rfl rfl rfl
    · exact .refl k slot

theorem writeToPipe_touches (pipe count : Nat) (bytes : List UInt8) :
    Touches k slot (k.writeToPipe pipe count bytes).2 := by
  unfold writeToPipe
  split
  · exact .refl k slot
  · split
    · exact .refl k slot
    · exact .of_same rfl rfl rfl

theorem readFromSocket_touches (conn : Nat) (side : Side) (count : Nat) (valid : Bool) :
    Touches k slot (k.readFromSocket conn side count valid).2 := by
  unfold readFromSocket
  split
  · exact .refl k slot
  · split
    · exact .of_same rfl rfl rfl
    · exact .refl k slot

theorem writeToSocket_touches (conn : Nat) (side : Side) (count : Nat) (bytes : List UInt8) :
    Touches k slot (k.writeToSocket conn side count bytes).2 := by
  unfold writeToSocket
  split
  · exact .refl k slot
  · split
    · exact .refl k slot
    · exact .of_same rfl rfl rfl

theorem socketFromRing3_touches (domain kind protocol : Nat) :
    Touches k slot (k.socketFromRing3 slot domain kind protocol).2 := by
  unfold socketFromRing3
  split
  · exact .refl k slot
  split
  · exact .refl k slot
  split
  · exact .refl k slot
  split
  · rename_i inserted
    exact .insertFile inserted nofun
  · exact .refl k slot

theorem bindFromRing3_touches (fd : Nat) (name : Except Errno (List UInt8)) :
    Touches k slot (k.bindFromRing3 slot fd name).2 := by
  unfold bindFromRing3
  split
  · split
    · exact .refl k slot
    · split
      · exact (Touches.replaceFile _ slot fd (by nofun)).after rfl rfl rfl
      · exact .refl k slot
      · exact .refl k slot
  · exact .refl k slot
  · exact .refl k slot

theorem listenFromRing3_touches (fd : Nat) : Touches k slot (k.listenFromRing3 slot fd).2 := by
  unfold listenFromRing3
  split
  · split
    · exact .of_same rfl rfl rfl
    · exact .refl k slot
  · exact .refl k slot
  · exact .refl k slot

theorem acceptLoop_touches (listener : Nat) : Touches k slot (k.acceptLoop slot listener).2 := by
  unfold acceptLoop
  split
  · split
    · rename_i inserted
      exact (Touches.insertFile inserted nofun).after rfl rfl rfl
    · exact .of_same rfl rfl rfl
  · exact .refl k slot
  · exact .refl k slot

theorem acceptFromRing3_touches (fd addr : Nat) :
    Touches k slot (k.acceptFromRing3 slot fd addr).2 := by
  unfold acceptFromRing3
  split
  · split
    · exact .refl k slot
    · exact k.acceptLoop_touches _
  · exact .refl k slot
  · exact .refl k slot

theorem connectFromRing3_touches (fd : Nat) (name : Except Errno (List UInt8)) :
    Touches k slot (k.connectFromRing3 slot fd name).2 := by
  unfold connectFromRing3
  split
  · split
    · exact .refl k slot
    · split
      · exact (Touches.replaceFile _ slot fd (by nofun)).after rfl rfl rfl
      · exact .refl k slot
      · exact .refl k slot
  · exact .refl k slot
  · exact .refl k slot
  · exact .refl k slot

theorem sendmsgFromRing3_touches (fd : Nat) (msg : Except Errno Message) :
    Touches k slot (k.sendmsgFromRing3 slot fd msg).2 := by
  unfold sendmsgFromRing3
  split
  · split
    · exact .refl k slot
    · split
      · exact k.writeToSocket_touches _ _ _ _
      · split
        · exact .refl k slot
        · rename_i k₁ sent
          unfold sendFd at sent
          split at sent
          · cases sent
          · split at sent
            · cases sent
            · obtain rfl := Except.ok.inj sent
              exact (writeToSocket_touches _ _ _ _ _).after rfl rfl rfl
  · exact .refl k slot
  · exact .refl k slot

theorem recvmsgLoop_touches (conn : Nat) (side : Side) (control : ControlBuffer) (count : Nat)
    (valid : Bool) : Touches k slot (k.recvmsgLoop slot conn side control count valid).2 := by
  unfold recvmsgLoop
  split
  · split
    · exact (readFromSocket_touches _ _ _ _ _).after rfl rfl rfl
    · split
      · exact .of_same rfl rfl rfl
      · rename_i k₁ inserted
        have first : Touches k slot k₁ := (Touches.insertFile inserted nofun).after rfl rfl rfl
        split
        · exact first
        split
        · exact first
        · unfold readFromSocket
          split
          · exact first
          · split
            · exact first.andThen rfl rfl rfl
            · exact first
  · exact .refl k slot

theorem recvmsgFromRing3_touches (fd : Nat) (msg : Except Errno Message) :
    Touches k slot (k.recvmsgFromRing3 slot fd msg).2 := by
  unfold recvmsgFromRing3
  split
  · split
    · exact .refl k slot
    · exact k.recvmsgLoop_touches _ _ _ _ _
  · exact .refl k slot
  · exact .refl k slot

theorem pollLoop_snd (reasons : List Wait) : (k.pollLoop reasons).2 = k := by
  unfold pollLoop
  dsimp only
  split
  · rfl
  split
  · rfl
  split <;> rfl

theorem pollFromRing3_snd (fds : List PollFd) (timeout : Int) (valid : Bool) :
    (k.pollFromRing3 slot fds timeout valid).2 = k := by
  unfold pollFromRing3
  split
  · rfl
  split
  · rfl
  split
  · rfl
  split
  · rfl
  split
  · rfl
  · exact k.pollLoop_snd _

theorem memfdCreateFromRing3_touches : Touches k slot (k.memfdCreateFromRing3 slot).2 := by
  unfold memfdCreateFromRing3
  split
  · exact .refl k slot
  · split
    · rename_i inserted
      exact (Touches.insertFile inserted nofun).after rfl rfl rfl
    · exact .of_same rfl rfl rfl

theorem ftruncateFromRing3_touches (fd size : Nat) :
    Touches k slot (k.ftruncateFromRing3 slot fd size).2 := by
  unfold ftruncateFromRing3
  split
  · exact .refl k slot
  · exact .of_same rfl rfl rfl

theorem sysOpen_touches (found : Except Errno (Fs.Inode × Bool)) (root : Bytes) :
    Touches k slot (k.sysOpen slot found root).2 := by
  unfold sysOpen
  split
  · exact .of_same rfl rfl rfl
  · split
    · rename_i inserted
      exact (Touches.insertFile inserted nofun).after rfl rfl rfl
    · exact .of_same rfl rfl rfl

theorem openInputFromRing3_touches : Touches k slot (k.openInputFromRing3 slot).2 := by
  unfold openInputFromRing3
  split
  · rename_i foreground
    split
    · rename_i inserted
      refine .insertFile inserted fun _ => Fin.ext ?_
      have first := (Bool.and_eq_true _ _ ▸ foreground).2
      exact beq_iff_eq.mp first
    · exact .refl k slot
  · exact .refl k slot

theorem openScreenFromRing3_touches (entered : Except Errno Unit) :
    Touches k slot (k.openScreenFromRing3 slot entered).2 := by
  unfold openScreenFromRing3
  split
  · split
    · exact .refl k slot
    · split
      · rename_i inserted
        exact .insertFile inserted nofun
      · exact .refl k slot
  · exact .refl k slot

theorem sysClose_touches (fd : Nat) : Touches k slot (k.sysClose slot fd).2 := by
  unfold sysClose
  split
  · rename_i removed
    exact (Touches.setFiles fun mem => .inl (FileTable.mem_remove removed mem)).andThen rfl rfl rfl
  · exact .refl k slot

theorem sysWrite_touches (fd count : Nat) (bytes : List UInt8) (other : Ret × Bytes) :
    Touches k slot (k.sysWrite slot fd count bytes other).2 := by
  unfold sysWrite
  split
  · exact .refl k slot
  · split
    · exact k.writeToPipe_touches _ _ _
    · split
      · exact k.writeToSocket_touches _ _ _ _
      · exact .refl k slot
      · exact .of_same rfl rfl rfl

theorem sleepLoop_snd (deadline : Nat) : (k.sleepLoop deadline).2 = k := by
  unfold sleepLoop
  split <;> rfl

theorem sysNanosleep_snd (request : Except Errno Nat) : (k.sysNanosleep request).2 = k := by
  unfold sysNanosleep
  split
  · rfl
  · exact k.sleepLoop_snd _

theorem childLoop_touches (handle : Nat) : Touches k slot (k.childLoop handle).2 := by
  unfold childLoop
  split
  · split
    · exact .of_same rfl rfl rfl
    · exact .refl k slot
  · exact .refl k slot

theorem waitChildFromRing3_touches (handle : Nat) :
    Touches k slot (k.waitChildFromRing3 slot handle).2 := by
  unfold waitChildFromRing3
  split
  · exact k.childLoop_touches handle
  · exact (childLoop_touches _ handle).after rfl rfl rfl

theorem spawnDetachedFromRing3_touches (flags : Nat) (args : Except Errno Unit) :
    Touches k slot (k.spawnDetachedFromRing3 slot flags args).2 := by
  have started : ∀ k : System, ∀ pipe, (k.startDetached pipe).2.processes = k.processes ∧
      (k.startDetached pipe).2.input = k.input ∧
      (k.startDetached pipe).2.quarantine = k.quarantine := by
    intro k pipe
    unfold startDetached
    split <;> exact ⟨rfl, rfl, rfl⟩
  unfold spawnDetachedFromRing3
  split
  · exact .refl k slot
  split
  · exact .refl k slot
  split
  · split
    all_goals
      rename_i same
      obtain ⟨processes, input, quarantine⟩ := started k none
      rw [same] at processes input quarantine
      exact .of_same processes input quarantine
  · split
    · exact .refl k slot
    · rename_i pipe pipes made
      split
      all_goals
        rename_i same
        obtain ⟨processes, input, quarantine⟩ := started (k.setPipes pipes) (some pipe)
        rw [same] at processes input quarantine
        exact .of_same processes input quarantine

theorem spawnWithPipedStdinFromRing3_touches (args : Except Errno Unit) :
    Touches k slot (k.spawnWithPipedStdinFromRing3 slot args).2 := by
  unfold spawnWithPipedStdinFromRing3
  split
  · exact .refl k slot
  · split
    · exact .refl k slot
    · dsimp only
      split <;> exact .of_same rfl rfl rfl

theorem readRegular_touches (fd : Nat) (inode : Fs.Inode) (offset : Nat) (writable : Bool)
    (count : Nat) (valid : Bool) :
    Touches k slot (k.readRegular slot fd inode offset writable count valid).2 := by
  unfold readRegular
  split
  · exact .refl k slot
  split
  · exact .refl k slot
  dsimp only
  split
  · exact .refl k slot
  split
  · exact .refl k slot
  split
  · exact .refl k slot
  · exact .refl k slot
  split
  · exact .refl k slot
  · exact .refl k slot
  · exact .setFiles fun mem => .inl (FileTable.input_mem_advance mem)

theorem sysRead_touches (fd count : Nat) (valid : Bool)
    (other : ∀ file, (k.files slot).get fd = .ok file → file.readsKeys = false) :
    Touches k slot (k.sysRead slot fd count valid).2 := by
  unfold sysRead
  split
  · exact .refl k slot
  · rename_i file found
    have notKeys := other file found
    cases file with
    | regular inode offset writable => exact k.readRegular_touches _ _ _ _ _ _
    | pipeRead pipe => exact k.readFromPipe_touches _ _ _
    | socket state =>
      cases state with
      | stream conn side => exact k.readFromSocket_touches _ _ _ _
      | _ => exact .refl k slot
    | screen => exact .refl k slot
    | _ => cases notKeys

theorem syscall_touches
    (read : ∀ fd count valid, c = .read fd count valid → ∀ file, (k.files slot).get fd = .ok file →
      file.readsKeys = false) (maps : c.maps = false) : Touches k slot (k.syscall slot c).2 := by
  cases c with
  | socket domain kind protocol => exact k.socketFromRing3_touches _ _ _
  | bind fd name => exact k.bindFromRing3_touches _ _
  | listen fd => exact k.listenFromRing3_touches _
  | accept fd addr => exact k.acceptFromRing3_touches _ _
  | connect fd name => exact k.connectFromRing3_touches _ _
  | read fd count valid => exact k.sysRead_touches _ _ _ (read fd count valid rfl)
  | write fd count bytes other => exact k.sysWrite_touches _ _ _ _
  | sendmsg fd msg => exact k.sendmsgFromRing3_touches _ _
  | recvmsg fd msg => exact k.recvmsgFromRing3_touches _ _
  | poll fds timeout valid =>
    show Touches k slot (k.pollFromRing3 slot fds timeout valid).2
    rw [pollFromRing3_snd]
    exact .refl k slot
  | memfdCreate => exact k.memfdCreateFromRing3_touches
  | ftruncate fd size => exact k.ftruncateFromRing3_touches _ _
  | mmap len exec fd offset => cases maps
  | brk requested => cases maps
  | opens found root => exact k.sysOpen_touches _ _
  | openInput => exact k.openInputFromRing3_touches
  | openScreen entered => exact k.openScreenFromRing3_touches _
  | close fd => exact k.sysClose_touches _
  | nanosleep request =>
    show Touches k slot (k.sysNanosleep request).2
    rw [sysNanosleep_snd]
    exact .refl k slot
  | waitChild handle => exact k.waitChildFromRing3_touches _
  | spawn args => cases args <;> exact .refl k slot
  | spawnDetached flags args => exact k.spawnDetachedFromRing3_touches _ _
  | spawnWithPipedStdin args => exact k.spawnWithPipedStdinFromRing3_touches _

theorem maps_cases (maps : c.maps = true) : ∃ next,
    (k.syscall slot c).2 = { k with mmapNext := next } ∨ ∃ space heap allocator,
      (k.syscall slot c).2 = { k with mmapNext := next }.setSpace slot space heap allocator := by
  cases c with
  | mmap len exec fd offset =>
    show ∃ next, (k.mmapFromRing3 slot len exec fd offset).2 = _ ∨ ∃ space heap allocator,
      (k.mmapFromRing3 slot len exec fd offset).2 = _
    have same : ∃ next, k = { k with mmapNext := next } ∨ ∃ space heap allocator,
      k = { k with mmapNext := next }.setSpace slot space heap allocator := ⟨_, .inl rfl⟩
    unfold mmapFromRing3
    split
    · exact same
    split
    · exact same
    split
    · exact same
    split
    · exact same
    split
    · exact same
    dsimp only
    split
    · exact ⟨_, .inl rfl⟩
    · exact ⟨_, .inr ⟨_, _, _, rfl⟩⟩
  | brk requested =>
    show ∃ next, (k.sysBrk slot requested).2 = _ ∨ ∃ space heap allocator,
      (k.sysBrk slot requested).2 = _
    have same : ∃ next, k = { k with mmapNext := next } ∨ ∃ space heap allocator,
      k = { k with mmapNext := next }.setSpace slot space heap allocator := ⟨_, .inl rfl⟩
    unfold sysBrk
    split
    · exact same
    dsimp only
    split
    · exact same
    split
    · exact same
    split
    · exact same
    split
    · exact ⟨k.mmapNext, .inr ⟨_, _, _, rfl⟩⟩
    split
    · split <;> exact ⟨k.mmapNext, .inr ⟨_, _, _, rfl⟩⟩
    · exact ⟨k.mmapNext, .inr ⟨_, _, _, rfl⟩⟩
  | _ => cases maps

theorem round_touches {loop : Loop} (other : loop.readsKeys = none) :
    Touches k slot (k.round slot loop).2 := by
  cases loop with
  | accept listener => exact k.acceptLoop_touches _
  | recvmsg conn side control count valid => exact k.recvmsgLoop_touches _ _ _ _ _
  | poll reasons =>
    show Touches k slot (k.pollLoop reasons).2
    rw [pollLoop_snd]
    exact .refl k slot
  | sleep deadline =>
    show Touches k slot (k.sleepLoop deadline).2
    rw [sleepLoop_snd]
    exact .refl k slot
  | child handle => exact k.childLoop_touches _
  | terminal fd want => cases other
  | input fd cap => cases other
  | _ => exact .of_same rfl rfl rfl

end Calls

end System

end Zaytos.Kernel
