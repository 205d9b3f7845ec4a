/-
# `Smoll.Http3.Downloads` — what is in the file of a URL

`write_response` makes the file of a URL of the events that came on its stream,
and of no others, if the clock has moved since the request and the file can be
opened (`downloaded`).  It goes by the last part of the path only, so it is
written over by a coroutine that goes on later for a URL with the same last
part, and by `process_http_pushes` at the end, for a promise of such a path.

All writing is appending to `written` (`written_step`); what a file holds is
what was appended for it last.
-/
import Smoll.Http3.Answers
import Smoll.Http3.Pushes

namespace Smoll.Http3

open OrderedDict Streams

variable {WS : Type} {out : Outside WS} {cfg : Config} {moves : List Move} {s s' : State WS}

/-- What is in a file: what was written there last. -/
def State.file (s : State WS) (path : Text) : Option Bytes := s.written.reverse.lookup path

/-- What a move writes. -/
def writes (out : Outside WS) (cfg : Config) (s : State WS) : Move → List (Text × Bytes)
  | .finish i files elapsed =>
      match s.tasks[i]?, s.client.futures[i]? with
      | some task, some (some events) => written (performed out cfg files elapsed task.url events)
      | _, _ => []
  | .pushes files => (processHttpPushes cfg files s.client.pushes).1
  | _ => []

theorem written_transmit (s : State WS) (streamId : Nat) (websocket : WebSocket WS)
    (made : Except Text (Bytes × WS)) (endStream : Bool) :
    (s.transmit streamId websocket made endStream).written = s.written := by
  cases made with
  | error message => rfl
  | ok made => rfl

theorem written_step {move : Move} (hstep : step out cfg move s = some s') :
    s'.written = s.written ++ writes out cfg s move := by
  have hnil : s.written = s.written ++ [] := (List.append_nil _).symm
  cases stepped hstep with
  | request _ _ => exact hnil
  | websocket _ _ => exact hnil
  | noUrl _ => exact hnil
  | event => exact hnil
  | @finish j files elapsed task events htask hfuture _ => rw [writes, htask, hfuture]
  | pushes _ _ => rfl
  | recv _ => exact hnil
  | send _ => exact (written_transmit _ _ _ _ _).trans hnil
  | close _ => exact (written_transmit _ _ _ _ _).trans hnil

/-! ## One response -/

/-- What `perform_http_request` writes, and where. -/
theorem mem_written_performed {files : Files} {elapsed : Int} {url dir : Text}
    {events : List H3Event} {file : Text × Bytes} (hdir : cfg.outputDir = some dir)
    (h : file ∈ written (performed out cfg files elapsed url events)) :
    outputPath out dir url = some file.1 := by
  unfold performed outputResponse at h
  rw [hdir] at h
  rw [outputPath]
  cases hparse : out.urlparse url with
  | error message =>
      rw [hparse] at h
      cases h
  | ok parsed =>
      rw [hparse] at h
      simp only [] at h
      split at h
      · cases h
      · split at h
        · cases h
        · rw [List.mem_singleton.mp h]
          rfl

theorem written_performed {files : Files} {elapsed : Int} {url dir path : Text}
    {events : List H3Event} (hdir : cfg.outputDir = some dir)
    (hpath : outputPath out dir url = some path) (hclock : elapsed ≠ 0) (hopen : files path = none) :
    written (performed out cfg files elapsed url events) =
      [(path, writeResponse cfg.includeHeaders events)] := by
  rw [outputPath] at hpath
  cases hparse : out.urlparse url with
  | error message =>
      rw [hparse] at hpath
      cases hpath
  | ok parsed =>
      rw [hparse] at hpath
      obtain rfl : pathIn dir parsed.path = path := Option.some.inj hpath
      unfold performed outputResponse
      simp only [hparse, if_neg hclock, hdir, hopen]
      rfl

/-! ## A file -/

/-- A move that does not write there. -/
theorem file_step {move : Move} {path : Text} (hstep : step out cfg move s = some s')
    (hother : ∀ file ∈ writes out cfg s move, file.1 ≠ path) : s'.file path = s.file path := by
  have hnone : (writes out cfg s move).reverse.lookup path = none := by
    rw [List.lookup_eq_none_iff]
    intro file hfile
    exact bne_iff_ne.mpr (hother file (List.mem_reverse.mp hfile)).symm
  rw [State.file, State.file, written_step hstep, List.reverse_append, List.lookup_append, hnone,
    Option.none_or]

/-- No coroutine that goes on in these moves has that output path, and if the pushes are written
in them, no promise of the run has it. -/
structure Spared (out : Outside WS) (dir path : Text) (s : State WS) (run moves : List Move) :
    Prop where
  tasks : ∀ i files elapsed (task : Task), .finish i files elapsed ∈ moves →
    s.tasks[i]? = some task → outputPath out dir task.url ≠ some path
  pushes : ∀ files, .pushes files ∈ moves → ∀ headers pushId streamId method target,
    .event (.pushPromiseReceived headers pushId streamId) ∈ run →
    promised headers ([], []) = .ok (method, target) → pathIn dir target ≠ path

theorem described_of_kept {run : List Move} {pushId : Nat} {events : List H3Event}
    {got : Text × Text} (h : Kept run pushId events) (hgot : described events ([], []) = .ok got) :
    ∃ headers streamId, promised headers ([], []) = .ok got ∧
      .event (.pushPromiseReceived headers pushId streamId) ∈ run := by
  rcases h with ⟨headers, streamId, rest, rfl, hrest, hmem⟩
  refine ⟨headers, streamId, ?_, hmem⟩
  simp only [described] at hgot
  split at hgot
  · next got' hpromised =>
      rw [described_of_no_promise got' hrest] at hgot
      cases hgot
      exact hpromised
  · cases hgot

/-- A move that spares the file; `s'` is where the run ends. -/
theorem Spared.writes {dir path : Text} {run : List Move} {move : Move} {moves : List Move}
    (h : Spared out dir path s' run (move :: moves)) (hdir : cfg.outputDir = some dir)
    (hrun : Sched.run (step out cfg) (move :: moves) s = some s')
    (hkept : ∀ push ∈ s.client.pushes, Kept run push.1 push.2) :
    ∀ file ∈ writes out cfg s move, file.1 ≠ path := by
  intro file hfile hpath
  cases move with
  | finish i files elapsed =>
      rw [Http3.writes] at hfile
      split at hfile
      · next task events htask _ =>
          -- the task is there at the end of the run too, with its URL
          rcases (tasks_run hrun).2 i task htask with ⟨task', htask', hurl⟩
          have hto := mem_written_performed hdir hfile
          rw [hpath, ← hurl] at hto
          exact h.tasks i files elapsed task' List.mem_cons_self htask' hto
      · cases hfile
  | pushes files =>
      rcases exists_of_mem_processHttpPushes hdir hfile with ⟨push, hpush, method, target, hgot, hto⟩
      rcases described_of_kept (hkept push hpush) hgot with ⟨headers, streamId, hpromised, hmem⟩
      exact h.pushes files List.mem_cons_self headers _ streamId method target hmem hpromised
        (hto.symm.trans hpath)
  | request _ _ _ => cases hfile
  | websocket _ _ _ => cases hfile
  | noUrl _ => cases hfile
  | event _ => cases hfile
  | recv _ => cases hfile
  | send _ _ => cases hfile
  | close _ _ _ => cases hfile

theorem Spared.tail {dir path : Text} {run : List Move} {move : Move} {moves : List Move}
    (h : Spared out dir path s run (move :: moves)) : Spared out dir path s run moves where
  tasks := fun i files elapsed task hmem => h.tasks i files elapsed task (List.mem_cons_of_mem _ hmem)
  pushes := fun files hmem => h.pushes files (List.mem_cons_of_mem _ hmem)

theorem file_run {dir path : Text} {run : List Move} (hdir : cfg.outputDir = some dir)
    (h : Sched.run (step out cfg) moves s = some s') (hspared : Spared out dir path s' run moves)
    (hrun : ∀ move ∈ moves, move ∈ run)
    (hkept : ∀ push ∈ s.client.pushes, Kept run push.1 push.2) : s'.file path = s.file path := by
  induction moves generalizing s with
  | nil =>
      cases h
      rfl
  | cons move moves ih =>
      rcases Option.bind_eq_some_iff.mp h with ⟨s₁, hstep, hrest⟩
      have hkept₁ := kept_step (hrun move List.mem_cons_self) hkept hstep
      rw [ih hrest hspared.tail (fun m hm => hrun m (List.mem_cons_of_mem _ hm)) hkept₁]
      exact file_step hstep (hspared.writes hdir h hkept)

/-- **The file of a URL** holds the response that came on its stream, if the clock has moved and the
file can be opened, until a coroutine goes on whose URL has the same last part, or the pushes are
written and one was promised with it. -/
theorem downloaded {before meanwhile after : List Move} {url dir path : Text} {data : Option Text}
    {streamId : Nat} {files : Files} {elapsed : Int} (hdir : cfg.outputDir = some dir)
    (hpath : outputPath out dir url = some path)
    (h : Sched.run (step out cfg)
      (before ++ .request url data streamId ::
        (meanwhile ++ .finish (requests before) files elapsed :: after)) State.init = some s)
    (hclock : elapsed ≠ 0) (hopen : files path = none)
    (htasks : ∀ i files elapsed (task : Task), .finish i files elapsed ∈ after →
      s.tasks[i]? = some task → outputPath out dir task.url ≠ some path)
    (hpushes : ∀ files, .pushes files ∈ after → ∀ headers pushId streamId method target,
      .event (.pushPromiseReceived headers pushId streamId) ∈ before ++ meanwhile ++ after →
      promised headers ([], []) = .ok (method, target) → pathIn dir target ≠ path) :
    ∃ events, upTo H3Event.ended (eventsOn streamId meanwhile) = some events ∧
      s.file path = some (writeResponse cfg.includeHeaders events) := by
  obtain ⟨run, hrun⟩ : ∃ run, run = before ++ .request url data streamId ::
    (meanwhile ++ .finish (requests before) files elapsed :: after) := ⟨_, rfl⟩
  have hspared : Spared out dir path s run after := by
    refine ⟨htasks, fun files hfiles headers pushId k method target hmem => ?_⟩
    refine hpushes files hfiles headers pushId k method target ?_
    simpa [hrun] using hmem
  rw [← List.cons_append, ← List.append_assoc] at h
  rcases Sched.run_append.mp h with ⟨s₁, hmeanwhile, hrest⟩
  rcases Option.bind_eq_some_iff.mp hrest with ⟨s₂, hfinish, hafter⟩
  rcases serves_run hmeanwhile with ⟨parsed, _, hserves⟩
  have hfuture := hserves.holds.future
  rw [foldl_observe, answer_foldl] at hfuture
  rcases hserves.task with ⟨finished, htask⟩
  have hfront : ∀ move ∈ before ++ .request url data streamId :: meanwhile, move ∈ run := by
    intro move hmove
    rw [hrun, ← List.cons_append, ← List.append_assoc]
    exact List.mem_append_left _ hmove
  have hback : ∀ move ∈ .finish (requests before) files elapsed :: after, move ∈ run := by
    intro move hmove
    rw [hrun, ← List.cons_append, ← List.append_assoc]
    exact List.mem_append_right _ hmove
  have hkept : ∀ push ∈ s₂.client.pushes, Kept run push.1 push.2 :=
    kept_step (hback _ List.mem_cons_self) (kept_of_run hmeanwhile hfront) hfinish
  have hafter' : s.file path = s₂.file path :=
    file_run hdir hafter hspared (fun move hmove => hback move (List.mem_cons_of_mem _ hmove)) hkept
  cases stepped hfinish with
  | @finish _ _ _ task events htask' hfuture' _ =>
      rw [htask] at htask'
      cases htask'
      rw [hfuture] at hfuture'
      refine ⟨events, Option.some.inj hfuture', ?_⟩
      rw [hafter', State.file]
      simp only [written_performed hdir hpath hclock hopen]
      rw [List.reverse_append, List.reverse_singleton, List.singleton_append, List.lookup_cons,
        beq_self_eq_true]

/-- Two files, with a push under another name at the end. -/
theorem downloaded_two : ∃ s : State (List Text),
    Sched.run (step plain ⟨false, some "d".toList⟩)
      ([.request "https://h/a".toList none 0] ++ .request "https://h/b".toList none 4 ::
        ([.event (.pushPromiseReceived (promiseOf "/c".toList) 7 0),
            .event (.dataReceived [97] 0 true none), .event (.dataReceived [98] 4 true none)] ++
          .finish 1 (fun _ => none) 1 :: [.finish 0 (fun _ => none) 1, .pushes fun _ => none]))
      State.init = some s ∧
    s.file "d/b".toList = some [98] := by
  have h : Sched.run (step plain ⟨false, some "d".toList⟩)
      ([.request "https://h/a".toList none 0] ++ .request "https://h/b".toList none 4 ::
        ([.event (.pushPromiseReceived (promiseOf "/c".toList) 7 0),
            .event (.dataReceived [97] 0 true none), .event (.dataReceived [98] 4 true none)] ++
          .finish 1 (fun _ => none) 1 :: [.finish 0 (fun _ => none) 1, .pushes fun _ => none]))
      State.init = some _ := rfl
  rcases @downloaded _ plain _ _ _ _ _ _ _ "d/b".toList _ _ _ _ rfl rfl h Int.one_ne_zero rfl (by
    intro i files elapsed task hi htask
    rcases List.mem_pair.mp hi with hi | hi
    · cases hi
      cases htask
      decide
    · cases hi) (by
    intro files _ headers pushId k method target hmem hpromised
    have hc : promised (promiseOf "/c".toList) ([], []) = .ok ("GET".toList, "/c".toList) := by
      decide +kernel
    have hheaders : headers = promiseOf "/c".toList := by
      simp at hmem
      exact hmem.1
    rw [hheaders, hc] at hpromised
    cases hpromised
    decide) with ⟨events, hevents, hfile⟩
  cases hevents
  exact ⟨_, h, hfile⟩

end Smoll.Http3
