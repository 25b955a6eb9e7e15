import PandoraRobot.Kernel.Sleep

/-! # The shell command `mobile_robot`

`mobile_robot x y w duration` sets the velocity of the chassis, sleeps for `duration`
milliseconds, and stops the chassis.  The shell thread runs it on the kernel, while
other threads, timers and the tick interrupt go on.

The velocities are of any type `F` with the arithmetic `stof` uses; in the code it is `float`,
for which `Float32` stands.  What `chassis_set_velocity` does is not part of the model: each call
returns, and is recorded.
-/

namespace PandoraRobot.Application

open PandoraRobot.Kernel

/-- `atoi` of the C library, which reads out of range values as the nearest `int`. -/
def atoi (s : List Char) : BitVec 32 :=
  let s := s.dropWhile fun c => c = ' ' || (9 ≤ c.toNat && c.toNat < 14)
  let (sign, s) : Int × List Char :=
    match s with
    | '-' :: s => (-1, s)
    | '+' :: s => (1, s)
    | s => (1, s)
  let v := (s.takeWhile Char.isDigit).foldl (fun v c => v * 10 + (c.toNat - '0'.toNat)) 0
  BitVec.ofInt 32 (max (-0x80000000) (min 0x7fffffff (sign * v)))

section Stof

variable {F : Type} [Zero F] [One F] [Neg F] [Add F] [Mul F] [Div F] [IntCast F]

/-- The locals of `stof`. -/
structure Stof (F : Type) where
  rez : F
  fact : F
  pointSeen : Bool

def Stof.next (l : Stof F) (c : Char) : Stof F :=
  if c = '.' then { l with pointSeen := true }
  else
    let d : Int := c.toNat - '0'.toNat
    if 0 ≤ d ∧ d ≤ 9 then
      { l with
        fact := if l.pointSeen then l.fact / ((10 : Int) : F) else l.fact
        rez := l.rez * ((10 : Int) : F) + (d : F) }
    else l

def stof (s : List Char) : F :=
  let (s, fact) : List Char × F :=
    match s with
    | '-' :: s => (s, -1)
    | s => (s, 1)
  let l := s.foldl Stof.next { rez := 0, fact := fact, pointSeen := false }
  l.rez * l.fact

instance zeroFloat32 : Zero Float32 := ⟨0.0⟩

instance oneFloat32 : One Float32 := ⟨1.0⟩

/-- The conversion of an `int`. -/
instance intCastFloat32 : IntCast Float32 := ⟨Float32.ofInt⟩

end Stof

/-- `struct velocity`. -/
structure Velocity (F : Type) where
  linearX : F
  linearY : F
  angularZ : F
  deriving DecidableEq

/-- Where the shell thread is in `mobile_robot`. -/
inductive Pc where
  | entry
  /-- Behind the first call of `chassis_set_velocity`. -/
  | moved
  /-- In `rt_thread_mdelay`, at the `rt_schedule` of `rt_thread_sleep`. -/
  | delayed
  | returned
  deriving DecidableEq

/-- The system while the command runs. -/
structure Command (T U I F : Type) where
  kernel : State T U I
  pc : Pc
  /-- The calls of `chassis_set_velocity`. -/
  velocities : List (Velocity F)
  /-- The tick interrupts since the first call of `chassis_set_velocity`. -/
  ticks : Nat
  /-- The tick interrupts since the call of `rt_thread_mdelay`. -/
  slept : Nat

namespace Command

variable {T U I F : Type} [DecidableEq T] [DecidableEq U] [DecidableEq I] [Fintype T] [Fintype U]
  [Zero F] [One F] [Neg F] [Add F] [Mul F] [Div F] [IntCast F]

def targetVel (argv : List (List Char)) : Velocity F where
  linearX := stof (argv.getD 1 [])
  linearY := stof (argv.getD 2 [])
  angularZ := stof (argv.getD 3 [])

def duration (argv : List (List Char)) : BitVec 32 := atoi (argv.getD 4 [])

def stopVel : Velocity F := ⟨0, 0, 0⟩

/-- The shell thread goes on with `mobile_robot`, up to the next call that leaves the command. -/
def mobileRobot (shell : T) (argv : List (List Char)) (c : Command T U I F) :
    Exec (Command T U I F) :=
  match c.pc with
  | .entry =>
    -- `print_help`
    if argv.length < 5 then pure { c with pc := .returned }
    else pure { c with pc := .moved, velocities := c.velocities ++ [targetVel argv], ticks := 0 }
  | .moved =>
    if 0 < (duration argv).toInt then do
      let kernel ← c.kernel.rtThreadMdelay (duration argv)
      pure { c with kernel := kernel, pc := .delayed, slept := 0 }
    else pure { c with pc := .returned }
  | .delayed =>
    pure { c with
      kernel := c.kernel.rtThreadSleepReturn shell
      pc := .returned
      velocities := c.velocities ++ [stopVel] }
  | .returned => pure c

/-- A step of the system while the command runs.  The idle thread does not block. -/
inductive Step (cb : State.Callback T U I) (shell idle : T) (argv : List (List Char)) :
    Command T U I F → Command T U I F → Prop where
  | command {c c' : Command T U I F} : c.kernel.rtCurrentThread = some shell →
      mobileRobot shell argv c = .ok c' → Step cb shell idle argv c c'
  | outside {c : Command T U I F} {k : State T U I} :
      State.Outside {shell, idle} c.kernel k → Step cb shell idle argv c { c with kernel := k }
  | tick {c : Command T U I F} {k : State T U I} (fuel : Nat) :
      c.kernel.rtTickIncrease (State.timeoutFunc cb) fuel = .ok k →
      Step cb shell idle argv c
        { c with kernel := k, ticks := c.ticks + 1, slept := c.slept + 1 }

abbrev Runs (cb : State.Callback T U I) (shell idle : T) (argv : List (List Char)) :
    Command T U I F → Command T U I F → Prop :=
  Relation.ReflTransGen (Step cb shell idle argv)

/-- The shell thread calls the command, at any tick and in any state the kernel reaches. -/
structure Called (shell idle : T) (c : Command T U I F) : Prop where
  kernel : ∃ cb k₀, State.Initial k₀ ∧ State.Runs cb k₀ c.kernel
  current : c.kernel.rtCurrentThread = some shell
  ready : (c.kernel.thread shell).stat = .ready
  unlocked : c.kernel.rtSchedulerLockNest = 0
  idle_ne : idle ≠ shell
  idle_ready : (c.kernel.thread idle).stat = .ready
  pc : c.pc = .entry
  velocities : c.velocities = []

/-- What is expected of the command in every run from `c₀`. -/
structure Honours (cb : State.Callback T U I) (shell idle : T) (argv : List (List Char))
    (c₀ : Command T U I F) : Prop where
  /-- The shell thread fails no assertion. -/
  asserts : ∀ c, Runs cb shell idle argv c₀ c → c.kernel.rtCurrentThread = some shell →
    ∃ c', mobileRobot shell argv c = .ok c'
  /-- Nor does the interrupt in which its sleep ends. -/
  timeout : ∀ c, Runs cb shell idle argv c₀ c → c.pc = .delayed →
    ∀ k, State.InTick cb c.kernel k → k.timers.rtTimerList.next (.inl ()) = .inr (.inl shell) →
    ∃ k', (State.host (State.timeoutFunc cb)).fire (.inl shell) k = .ok k'
  /-- The sleep is over with the last tick of the duration. -/
  prompt : ∀ c, Runs cb shell idle argv c₀ c → c.pc = .delayed →
    (duration argv).toInt ≤ c.slept → (c.kernel.thread shell).stat = .ready
  /-- As soon as the shell thread runs again it stops the chassis, and that is not too early. -/
  stops : ∀ c, Runs cb shell idle argv c₀ c → c.pc = .delayed →
    c.kernel.rtCurrentThread = some shell →
    (duration argv).toInt ≤ c.ticks ∧ ∃ c', mobileRobot shell argv c = .ok c' ∧
      c'.velocities = [targetVel argv, stopVel]
  returned : ∀ c, Runs cb shell idle argv c₀ c → c.pc = .returned →
    (duration argv).toInt ≤ c.ticks ∧ c.velocities = [targetVel argv, stopVel]

variable {cb : State.Callback T U I} {shell idle : T} {argv : List (List Char)}
  {c c' : Command T U I F}

/-- `t` is ready and stays so, and no lock is held while it runs. -/
def StaysReady (t : T) (k : State T U I) : Prop :=
  ∃ n σ zs, n < 0 ∧ State.Sleeper t 0 n k σ zs

/-- What holds of a command that is called with a duration at each place it can be at. -/
inductive Progress (shell idle : T) (argv : List (List Char)) (c : Command T U I F) : Prop where
  | entry : c.pc = .entry → c.velocities = [] → StaysReady idle c.kernel →
      StaysReady shell c.kernel → Progress shell idle argv c
  | moved : c.pc = .moved → c.velocities = [targetVel argv] → StaysReady idle c.kernel →
      StaysReady shell c.kernel → Progress shell idle argv c
  | delayed {σ : ListHead I → List T} {zs : List (T ⊕ U)} : c.pc = .delayed →
      c.velocities = [targetVel argv] → c.slept ≤ c.ticks →
      State.Sleeper shell 0 ((duration argv).toInt - c.slept) c.kernel σ zs →
      Progress shell idle argv c
  | returned : c.pc = .returned → c.velocities = [targetVel argv, stopVel] →
      (duration argv).toInt ≤ c.ticks → Progress shell idle argv c

omit [DecidableEq T] [DecidableEq U] [DecidableEq I] [Fintype T] [Fintype U] in
theorem StaysReady.ready {t : T} {k : State T U I} (h : StaysReady t k) :
    (k.thread t).stat = .ready := by
  obtain ⟨n, σ, zs, hn, hs⟩ := h
  rcases hs.rest with ⟨-, -, -, hmore⟩ | ⟨hready, -⟩
  · omega
  · exact hready

theorem StaysReady.outside {t : T} {ts : Set T} {k k' : State T U I} (h : StaysReady t k)
    (ht : t ∈ ts) (hstep : State.Outside ts k k') : StaysReady t k' := by
  obtain ⟨n, σ, zs, hn, hs⟩ := h
  obtain ⟨σ', zs', hs'⟩ := hs.outside ht hstep
  exact ⟨n, σ', zs', hn, hs'⟩

theorem StaysReady.tick {t : T} {ts : Set T} {k k' : State T U I} (h : StaysReady t k)
    (hspares : State.Spares cb ts) (ht : t ∈ ts) {fuel : Nat}
    (hstep : k.rtTickIncrease (State.timeoutFunc cb) fuel = .ok k') : StaysReady t k' := by
  obtain ⟨n, σ, zs, hn, hs⟩ := h
  obtain ⟨σ', zs', hs'⟩ := hs.tick hspares ht hstep
  exact ⟨n - 1, σ', zs', by omega, hs'⟩

theorem Called.progress (hc : Called shell idle c) : Progress shell idle argv c := by
  obtain ⟨cb₀, k₀, hinit, hruns⟩ := hc.kernel
  obtain ⟨σ, zs, hk⟩ := State.runs_good hinit hruns
  have hrunning : c.kernel.rtCurrentThread.isSome := by simp [hc.current]
  refine .entry hc.pc hc.velocities ⟨-1, σ, zs, by omega, ?_⟩ ⟨-1, σ, zs, by omega, ?_⟩
  · exact hk.sleeper hc.idle_ready (by omega) (fun _ => hc.unlocked) hrunning
  · exact hk.sleeper hc.ready (by omega) (fun _ => hc.unlocked) hrunning

/-- Every duration but the largest `int` can be slept. -/
theorem duration_lt_half (hd : 0 < (duration argv).toInt) :
    (State.rtTickFromMillisecond (duration argv)).toNat < rtTickMaxHalf ↔
      duration argv ≠ 0x7fffffff := by
  rw [State.rtTickFromMillisecond_of_nonneg (by omega)]
  have hcond := BitVec.toInt_eq_toNat_cond (duration argv)
  have hlt := (duration argv).isLt
  have hhalf : rtTickMaxHalf = 0x7fffffff := rfl
  have hmax : (0x7fffffff : BitVec 32).toNat = 0x7fffffff := rfl
  rw [ne_eq, ← BitVec.toNat_inj, hmax, hhalf]
  split at hcond <;> omega

theorem toNat_duration (hd : 0 < (duration argv).toInt) :
    ((State.rtTickFromMillisecond (duration argv)).toNat : Int) = (duration argv).toInt := by
  rw [State.rtTickFromMillisecond_of_nonneg (by omega)]
  have hcond := BitVec.toInt_eq_toNat_cond (duration argv)
  have hlt := (duration argv).isLt
  split at hcond <;> omega

/-- The shell thread gets through `rt_thread_mdelay`, up to its `rt_schedule`, unless the
    duration is the largest `int`. -/
theorem mdelay_returns_iff (hne : idle ≠ shell) (hd : 0 < (duration argv).toInt)
    {k : State T U I} (hidle : StaysReady idle k) (hshell : StaysReady shell k)
    (hcur : k.rtCurrentThread = some shell) :
    (∃ k', k.rtThreadMdelay (duration argv) = .ok k') ↔ duration argv ≠ 0x7fffffff := by
  rw [← duration_lt_half hd]
  have hready := hshell.ready
  obtain ⟨n, σ, zs, -, hs⟩ := hshell
  constructor
  · rintro ⟨k', hk'⟩
    by_contra hlt
    have hasserts := hs.wf.rtThreadSleep_asserts hcur hready hlt
    exact absurd (hasserts.symm.trans hk') (by simp)
  · intro hlt
    exact hs.wf.rtThreadSleep_returns hcur hready hne hidle.ready hlt

theorem Progress.command (hp : Progress shell idle argv c) (hargc : 5 ≤ argv.length)
    (hd : 0 < (duration argv).toInt) (hcur : c.kernel.rtCurrentThread = some shell)
    (h : mobileRobot shell argv c = .ok c') : Progress shell idle argv c' := by
  cases hp with
  | entry hpc hvel hidle hshell =>
    simp only [mobileRobot, hpc, if_neg (Nat.not_lt.mpr hargc), exec_pure_ok] at h
    subst h
    exact .moved rfl (by simp [hvel]) hidle hshell
  | moved hpc hvel hidle hshell =>
    simp only [mobileRobot, hpc, if_pos hd, exec_bind_ok, exec_pure_ok] at h
    obtain ⟨kernel, hdelay, rfl⟩ := h
    have hready := hshell.ready
    obtain ⟨n, σ, zs, -, hs⟩ := hshell
    have hticks := toNat_duration hd
    obtain ⟨σ', zs', hs'⟩ :=
      hs.wf.sleeper_of_sleep hcur hready (hs.picked hcur).2 (by omega) hdelay
    rw [hticks] at hs'
    exact .delayed rfl hvel (Nat.zero_le _) (by simpa using hs')
  | delayed hpc hvel hslept hs =>
    simp only [mobileRobot, hpc, exec_pure_ok] at h
    subst h
    refine .returned rfl (by simp [hvel]) ?_
    have hover := hs.over hcur
    show (duration argv).toInt ≤ (c.ticks : Int)
    omega
  | returned hpc hvel hticks =>
    simp only [mobileRobot, hpc, exec_pure_ok] at h
    exact h ▸ .returned hpc hvel hticks

theorem Progress.outside (hp : Progress shell idle argv c) {k : State T U I}
    (h : State.Outside {shell, idle} c.kernel k) :
    Progress shell idle argv { c with kernel := k } := by
  cases hp with
  | entry hpc hvel hidle hshell =>
    exact .entry hpc hvel (hidle.outside (by simp) h) (hshell.outside (by simp) h)
  | moved hpc hvel hidle hshell =>
    exact .moved hpc hvel (hidle.outside (by simp) h) (hshell.outside (by simp) h)
  | delayed hpc hvel hslept hs =>
    obtain ⟨σ', zs', hs'⟩ := hs.outside (by simp) h
    exact .delayed hpc hvel hslept hs'
  | returned hpc hvel hticks => exact .returned hpc hvel hticks

theorem Progress.tick (hp : Progress shell idle argv c)
    (hspares : State.Spares cb {shell, idle}) {k : State T U I} {fuel : Nat}
    (h : c.kernel.rtTickIncrease (State.timeoutFunc cb) fuel = .ok k) :
    Progress shell idle argv { c with kernel := k, ticks := c.ticks + 1, slept := c.slept + 1 } := by
  cases hp with
  | entry hpc hvel hidle hshell =>
    exact .entry hpc hvel (hidle.tick hspares (by simp) h) (hshell.tick hspares (by simp) h)
  | moved hpc hvel hidle hshell =>
    exact .moved hpc hvel (hidle.tick hspares (by simp) h) (hshell.tick hspares (by simp) h)
  | delayed hpc hvel hslept hs =>
    obtain ⟨σ', zs', hs'⟩ := hs.tick hspares (by simp) h
    have hcount : (duration argv).toInt - ((c.slept + 1 : Nat) : Int) =
        (duration argv).toInt - c.slept - 1 := by omega
    exact .delayed (σ := σ') hpc hvel (by simpa using hslept) (hcount ▸ hs')
  | returned hpc hvel hticks => exact .returned hpc hvel (by simp; omega)

theorem Progress.runs (hargc : 5 ≤ argv.length) (hd : 0 < (duration argv).toInt)
    (hspares : State.Spares cb {shell, idle}) {c₀ : Command T U I F}
    (hp : Progress shell idle argv c₀) (hr : Runs cb shell idle argv c₀ c) :
    Progress shell idle argv c := by
  induction hr with
  | refl => exact hp
  | tail _ hstep ih =>
    cases hstep with
    | command hcur h => exact ih.command hargc hd hcur h
    | outside h => exact ih.outside h
    | tick fuel h => exact ih.tick hspares h

omit [DecidableEq T] [DecidableEq U] [DecidableEq I] [Fintype T] [Fintype U] in
theorem Progress.of_delayed (hp : Progress shell idle argv c) (hpc : c.pc = .delayed) :
    ∃ σ zs, c.velocities = [targetVel argv] ∧ c.slept ≤ c.ticks ∧
      State.Sleeper shell 0 ((duration argv).toInt - c.slept) c.kernel σ zs := by
  cases hp with
  | entry h => simp [hpc] at h
  | moved h => simp [hpc] at h
  | delayed _ hvel hslept hs => exact ⟨_, _, hvel, hslept, hs⟩
  | returned h => simp [hpc] at h

/-- With the largest `int` the shell thread fails an assertion, right after the first call of
    `chassis_set_velocity`. -/
theorem largest_duration_asserts (hargc : 5 ≤ argv.length) (hd : 0 < (duration argv).toInt)
    {c₀ : Command T U I F} (hcalled : Called shell idle c₀) (hmax : duration argv = 0x7fffffff) :
    ¬ ∀ c, Runs cb shell idle argv c₀ c → c.kernel.rtCurrentThread = some shell →
      ∃ c', mobileRobot shell argv c = .ok c' := by
  intro hasserts
  have hp : Progress shell idle argv c₀ := hcalled.progress
  obtain ⟨c₁, hstep⟩ := hasserts c₀ .refl hcalled.current
  simp only [mobileRobot, hcalled.pc, if_neg (Nat.not_lt.mpr hargc), exec_pure_ok] at hstep
  obtain ⟨c₂, hstep₂⟩ := hasserts c₁ (.single (.command hcalled.current (by
    simp only [mobileRobot, hcalled.pc, if_neg (Nat.not_lt.mpr hargc), exec_pure_ok]
    exact hstep))) (hstep ▸ hcalled.current)
  cases hp with
  | entry _ _ hidle hshell =>
    subst hstep
    simp only [mobileRobot, if_pos hd, exec_bind_ok] at hstep₂
    obtain ⟨k', hdelay, -⟩ := hstep₂
    exact (mdelay_returns_iff hcalled.idle_ne hd hidle hshell hcalled.current).mp ⟨k', hdelay⟩ hmax
  | moved h => simp [hcalled.pc] at h
  | delayed h => simp [hcalled.pc] at h
  | returned h => simp [hcalled.pc] at h

/-- A command with a duration other than the largest `int` stops the chassis in time. -/
theorem Progress.honours (hargc : 5 ≤ argv.length) (hd : 0 < (duration argv).toInt)
    (hmax : duration argv ≠ 0x7fffffff) (hspares : State.Spares cb {shell, idle})
    (hne : idle ≠ shell) {c₀ : Command T U I F} (hp₀ : Progress shell idle argv c₀) :
    Honours cb shell idle argv c₀ := by
  have hp := fun c => hp₀.runs (c := c) hargc hd hspares
  refine ⟨fun c hr hcur => ?_, fun c hr hpc k hin hnext => ?_, fun c hr hpc hlate => ?_,
    fun c hr hpc hcur => ?_, fun c hr hpc => ?_⟩
  · cases hp c hr with
    | entry hpc =>
      exact ⟨_, by simp only [mobileRobot, hpc, if_neg (Nat.not_lt.mpr hargc)]; rfl⟩
    | moved hpc _ hidle hshell =>
      obtain ⟨k', hdelay⟩ := (mdelay_returns_iff hne hd hidle hshell hcur).mpr hmax
      refine ⟨{ c with kernel := k', pc := .delayed, slept := 0 }, ?_⟩
      simp only [mobileRobot, hpc, if_pos hd, exec_bind_ok, exec_pure_ok]
      exact ⟨k', hdelay, rfl⟩
    | delayed hpc => exact ⟨_, by simp only [mobileRobot, hpc]; rfl⟩
    | returned hpc => exact ⟨_, by simp only [mobileRobot, hpc]; rfl⟩
  · obtain ⟨σ, zs, -, -, hs⟩ := (hp c hr).of_delayed hpc
    obtain ⟨σ', zs', hs'⟩ := hs.inTick hspares (by simp) hin
    exact hs'.fire_returns hnext
  · obtain ⟨σ, zs, -, -, hs⟩ := (hp c hr).of_delayed hpc
    rcases hs.rest with ⟨-, -, -, hmore⟩ | ⟨hready, -⟩
    · omega
    · exact hready
  · obtain ⟨σ, zs, hvel, hslept, hs⟩ := (hp c hr).of_delayed hpc
    refine ⟨?_, { c with
      kernel := c.kernel.rtThreadSleepReturn shell
      pc := .returned
      velocities := c.velocities ++ [stopVel] }, by simp only [mobileRobot, hpc]; rfl,
      by simp [hvel]⟩
    have := hs.over hcur
    omega
  · cases hp c hr with
    | entry h => simp [hpc] at h
    | moved h => simp [hpc] at h
    | delayed h => simp [hpc] at h
    | returned _ hvel hticks => exact ⟨hticks, hvel⟩

/-- The duration is slept and then the chassis stopped, unless the duration is the largest
    `int`, which `rt_timer_start` does not take. -/
theorem mobile_robot_stops (cb : State.Callback T U I) (shell idle : T)
    (hspares : State.Spares cb {shell, idle}) (argv : List (List Char))
    (hargc : 5 ≤ argv.length) (hd : 0 < (duration argv).toInt) (c₀ : Command T U I F)
    (hcalled : Called shell idle c₀) :
    Honours cb shell idle argv c₀ ↔ duration argv ≠ 0x7fffffff := by
  have hp : Progress shell idle argv c₀ := hcalled.progress
  refine ⟨fun hhonours hmax => ?_, fun hmax => hp.honours hargc hd hmax hspares hcalled.idle_ne⟩
  exact largest_duration_asserts hargc hd hcalled hmax hhonours.asserts

/-- The shell thread, of priority 20, and the idle thread are set up, and the shell runs. -/
theorem exists_called {F : Type} : ∃ c₀ : Command (Fin 2) (Fin 0) (Fin 0) F, Called 1 0 c₀ := by
  let cb : State.Callback (Fin 2) (Fin 0) (Fin 0) := fun _ _ => []
  let setUp : List (Option (KernelOp (Fin 2) (Fin 0) (Fin 0))) :=
    [some (.init 0 31 32), some (.startup 0), some (.create 1 20 10), some (.startup 1)]
  let run : Exec (State (Fin 2) (Fin 0) (Fin 0)) := do
    let k ← State.script cb setUp State.boot
    k.rtSystemSchedulerStart
  obtain ⟨k, hk, hdata⟩ := exec_exists_ok (show
    run.map (fun k : State _ _ _ => (k.rtCurrentThread, (k.thread 1).stat, (k.thread 0).stat,
      k.rtSchedulerLockNest)) = .ok (some 1, .ready, .ready, 0) by decide +kernel)
  simp only [run, exec_bind_ok] at hk
  obtain ⟨k₁, hsetUp, hstart⟩ := hk
  simp only [Prod.mk.injEq] at hdata
  exact ⟨{ kernel := k, pc := .entry, velocities := [], ticks := 0, slept := 0 },
    ⟨cb, State.boot, State.boot_initial, (State.script_runs hsetUp).tail (.start hstart)⟩,
    hdata.1, hdata.2.1, hdata.2.2.2, by decide, hdata.2.2.1, rfl, rfl⟩

/-- `mobile_robot 1.5 0 -0.2 3000` -/
theorem mobile_robot_stops_after_three_seconds :
    ∃ c₀ : Command (Fin 2) (Fin 0) (Fin 0) Rat, Called 1 0 c₀ ∧
      Honours (fun _ _ => []) 1 0 ["mobile_robot".toList, "1.5".toList, "0".toList,
        "-0.2".toList, "3000".toList] c₀ := by
  obtain ⟨c₀, hcalled⟩ := exists_called
  exact ⟨c₀, hcalled, (mobile_robot_stops _ 1 0 (by simp [State.Spares]) _ (by decide)
    (by decide) c₀ hcalled).mpr (by decide)⟩

/-- `mobile_robot 1 0 0 2147483647` -/
theorem mobile_robot_largest_duration :
    ∃ c₀ : Command (Fin 2) (Fin 0) (Fin 0) Rat, Called 1 0 c₀ ∧
      ¬ Honours (fun _ _ => []) 1 0 ["mobile_robot".toList, "1".toList, "0".toList,
        "0".toList, "2147483647".toList] c₀ := by
  obtain ⟨c₀, hcalled⟩ := exists_called
  exact ⟨c₀, hcalled, fun hhonours => largest_duration_asserts (by decide) (by decide) hcalled
    (by decide) hhonours.asserts⟩

end Command

end PandoraRobot.Application
