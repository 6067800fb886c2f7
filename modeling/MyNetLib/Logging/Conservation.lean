import MyNetLib.Library.Chunks
import MyNetLib.Logging.AsyncLogging

/-! # No log text is lost, doubled, split or reordered

The characters handed to the log file, then the buffers the backend has still
to hand over, then the queue, then the current buffer, are the appended
messages in lock order; and every buffer holds whole messages.
-/

namespace MyNetLib.AsyncLogging

open Library

variable {size : Nat}

/-! ## Messages in chunks -/

/-- The messages fall into consecutive groups, one for each chunk of text. -/
def Grouped (ms : List (Msg size)) (chunks : List (List Byte)) : Prop :=
  ∃ groups : List (List (Msg size)), groups.flatten = ms ∧ groups.map bytes = chunks

@[simp] theorem bytes_nil : bytes ([] : List (Msg size)) = [] := rfl

theorem bytes_append (xs ys : List (Msg size)) : bytes (xs ++ ys) = bytes xs ++ bytes ys := by
  simp [bytes]

theorem bytes_singleton (m : Msg size) : bytes [m] = m.text := by
  simp [bytes]

theorem grouped_iff {ms : List (Msg size)} {chunks : List (List Byte)} :
    Grouped ms chunks ↔ InChunks Msg.text ms chunks := Iff.rfl

theorem Grouped.flatten {ms : List (Msg size)} {chunks : List (List Byte)}
    (h : Grouped ms chunks) : chunks.flatten = bytes ms :=
  (grouped_iff.1 h).flatten

theorem Grouped.extend {ms : List (Msg size)} {chunks : List (List Byte)} {last : List Byte}
    (h : Grouped ms (chunks ++ [last])) (m : Msg size) :
    Grouped (ms ++ [m]) (chunks ++ [last ++ m.text]) :=
  grouped_iff.2 ((grouped_iff.1 h).extend m)

theorem Grouped.push {ms : List (Msg size)} {chunks : List (List Byte)} (h : Grouped ms chunks)
    (g : List (Msg size)) : Grouped (ms ++ g) (chunks ++ [bytes g]) :=
  grouped_iff.2 ((grouped_iff.1 h).push g)

/-! ## Where the text is -/

/-- The buffers of `temp_buffer_vec` the backend has still to hand over. -/
def unwritten (s : AsyncLogging size) : List (BufferPtr size) :=
  match s.pc with
  | .checking => s.tempBufferVec
  | .writing i => s.tempBufferVec.drop i
  | _ => []

/-- What has been handed over, then what will be at the end of this iteration. -/
def secured (s : AsyncLogging size) : List (List Byte) :=
  s.logFile ++ (unwritten s).map content

/-- What the next critical section will take. -/
def front (s : AsyncLogging size) : List (List Byte) :=
  s.bufferToWrite.map content ++ [content s.curBuffer]

def IsEmpty (p : BufferPtr size) : Prop := ∃ b, p = some b ∧ b.data = []

structure ConsInv (s : AsyncLogging size) : Prop where
  grouped : Grouped s.appended (secured s ++ front s)
  current : ∃ b, s.curBuffer = some b
  next : ∀ b, s.nextBuffer = some b → b.data = []
  spares : s.pc = .locking ∨ s.pc = .waiting →
    IsEmpty s.newBuffer1 ∧ IsEmpty s.newBuffer2 ∧ s.tempBufferVec = []

theorem ConsInv.new : ConsInv (new : AsyncLogging size) := by
  constructor
  · exact ⟨[[]], rfl, rfl⟩
  · exact ⟨_, rfl⟩
  · intro b hb
    cases hb
    rfl
  · intro h
    rcases h with h | h <;> cases h

/-! ## Steps -/

theorem append_secured (s : AsyncLogging size) (msg : Msg size) :
    secured (s.append msg) = secured s := by
  obtain ⟨_, _, _, _, _, happ, _⟩ := append_frame s msg
  rw [happ]
  rfl

/-- The buffer taken into use is the reserve or a new one, empty either way. -/
theorem ConsInv.fresh {s : AsyncLogging size} (h : ConsInv s) :
    (s.nextBuffer.getD .new).data = [] := by
  cases hn : s.nextBuffer with
  | none => rfl
  | some b => exact h.next b hn

theorem ConsInv.fresh_append {s : AsyncLogging size} (h : ConsInv s) (msg : Msg size) :
    ((s.nextBuffer.getD .new).append msg.text).data = msg.text := by
  rw [FixedBuffer.append_data, h.fresh, List.nil_append]
  rw [FixedBuffer.avail_of_empty h.fresh]
  exact msg.short

theorem ConsInv.append {s : AsyncLogging size} (h : ConsInv s) (msg : Msg size) :
    ConsInv (s.append msg) := by
  have hdata := h.fresh_append msg
  obtain ⟨hg, ⟨cur, hcur⟩, hnext, hspares⟩ := h
  have hkeep : (s.append msg).pc = .locking ∨ (s.append msg).pc = .waiting →
      IsEmpty (s.append msg).newBuffer1 ∧ IsEmpty (s.append msg).newBuffer2 ∧
        (s.append msg).tempBufferVec = [] := by
    obtain ⟨_, _, _, _, _, happ, _⟩ := append_frame s msg
    rw [happ]
    exact hspares
  simp only [front, hcur, content, ← List.append_assoc] at hg
  by_cases hfit : msg.text.length < cur.avail
  · have happ := append_of_lt hcur hfit
    refine ⟨?_, ⟨cur.append msg.text, by rw [happ]⟩, by rw [happ]; exact hnext, hkeep⟩
    rw [append_secured, happ]
    simp only [front, content, ← List.append_assoc, FixedBuffer.append_data hfit]
    exact hg.extend msg
  · have happ := append_of_ge hcur (Nat.not_lt.1 hfit)
    refine ⟨?_, ⟨_, by rw [happ]⟩, ?_, hkeep⟩
    · rw [append_secured, happ]
      have hpush := hg.push [msg]
      rw [bytes_singleton] at hpush
      simpa [front, content, hdata] using hpush
    · rw [happ]
      intro b hn
      cases hn

theorem swapBuffers_secured {s : AsyncLogging size} (hpc : s.pc = .locking ∨ s.pc = .waiting) :
    secured s.swapBuffers = secured s ++ front s := by
  have hsec : secured s = s.logFile := by
    rcases hpc with hpc | hpc <;> simp [secured, unwritten, hpc]
  rw [hsec]
  simp [secured, unwritten, front, swapBuffers]

theorem ConsInv.swap {s : AsyncLogging size} (h : ConsInv s)
    (hpc : s.pc = .locking ∨ s.pc = .waiting) : ConsInv s.swapBuffers := by
  obtain ⟨hg, ⟨cur, hcur⟩, hnext, hspares⟩ := h
  obtain ⟨⟨b1, hb1, he1⟩, ⟨b2, hb2, he2⟩, htemp⟩ := hspares hpc
  have hleft : front s.swapBuffers = [[]] := by
    simp [front, swapBuffers, htemp, hb1, content, he1]
  constructor
  · rw [swapBuffers_secured hpc, hleft]
    simpa [swapBuffers] using hg.push []
  · exact ⟨b1, hb1⟩
  · intro b hb
    simp only [swapBuffers] at hb
    split at hb
    · exact hnext b hb
    · rw [hb2] at hb
      cases hb
      exact he2
  · intro h
    rcases h with h | h <;> cases h

theorem isEmpty_of_headAssertions {s : AsyncLogging size} (h : s.headAssertions = true) :
    IsEmpty s.newBuffer1 ∧ IsEmpty s.newBuffer2 ∧ s.tempBufferVec = [] := by
  simp only [headAssertions, Bool.and_eq_true, List.isEmpty_iff] at h
  obtain ⟨⟨h1, h2⟩, htemp⟩ := h
  refine ⟨?_, ?_, htemp⟩
  · cases hb : s.newBuffer1 with
    | none => simp [hb] at h1
    | some b => exact ⟨b, rfl, by simpa [hb, FixedBuffer.length] using h1⟩
  · cases hb : s.newBuffer2 with
    | none => simp [hb] at h2
    | some b => exact ⟨b, rfl, by simpa [hb, FixedBuffer.length] using h2⟩

/-- Two states with the same text in the same places, up to the hand-over. -/
structure SameText (s t : AsyncLogging size) : Prop where
  secured : AsyncLogging.secured t = AsyncLogging.secured s
  queue : t.bufferToWrite = s.bufferToWrite
  current : t.curBuffer = s.curBuffer
  next : t.nextBuffer = s.nextBuffer
  appended : t.appended = s.appended

theorem SameText.front {s t : AsyncLogging size} (h : SameText s t) :
    AsyncLogging.front t = AsyncLogging.front s := by
  rw [AsyncLogging.front, h.queue, h.current, AsyncLogging.front]

theorem Move.sameText {s s' : AsyncLogging size} (hm : Move s s') :
    ((s.pc = .locking ∨ s.pc = .waiting) ∧ s' = s.swapBuffers) ∨ SameText s s' := by
  cases hm with
  | leave hpc _ => exact Or.inr ⟨by simp [secured, unwritten, hpc], rfl, rfl, rfl, rfl⟩
  | enter hpc _ _ => exact Or.inr ⟨by simp [secured, unwritten, hpc], rfl, rfl, rfl, rfl⟩
  | wait hpc => exact Or.inr ⟨by simp [secured, unwritten, hpc], rfl, rfl, rfl, rfl⟩
  | swap hpc => exact Or.inl ⟨hpc, rfl⟩
  | check hpc _ => exact Or.inr ⟨by simp [secured, unwritten, hpc], rfl, rfl, rfl, rfl⟩
  | write i b hpc hget =>
      refine Or.inr ⟨?_, rfl, rfl, rfl, rfl⟩
      obtain ⟨hlt, hb⟩ := List.getElem?_eq_some_iff.1 hget
      simp only [secured, unwritten, hpc]
      rw [List.drop_eq_getElem_cons hlt, hb]
      simp [content]
  | endWrite i hpc hget =>
      refine Or.inr ⟨?_, rfl, rfl, rfl, rfl⟩
      have hend : s.tempBufferVec.drop i = [] :=
        List.drop_eq_nil_of_le (List.getElem?_eq_none_iff.1 hget)
      simp [secured, unwritten, hpc, hend]
  | resize hpc => exact Or.inr ⟨by simp [secured, unwritten, hpc], rfl, rfl, rfl, rfl⟩
  | refill b1 b2 v1 v2 hpc _ _ =>
      exact Or.inr ⟨by simp [secured, unwritten, hpc], rfl, rfl, rfl, rfl⟩
  | fails f _ => exact Or.inr ⟨rfl, rfl, rfl, rfl, rfl⟩

theorem ConsInv.spares_of_move {s s' : AsyncLogging size} (h : ConsInv s) (hm : Move s s')
    (hpc' : s'.pc = .locking ∨ s'.pc = .waiting) :
    IsEmpty s'.newBuffer1 ∧ IsEmpty s'.newBuffer2 ∧ s'.tempBufferVec = [] := by
  cases hm with
  | enter _ _ hassert => exact isEmpty_of_headAssertions hassert
  | wait hpc => exact h.spares (Or.inl hpc)
  | fails _ _ => exact h.spares hpc'
  | _ => rcases hpc' with hp | hp <;> cases hp

theorem ConsInv.backend {s s' : AsyncLogging size} (h : ConsInv s) (hm : Move s s') :
    ConsInv s' := by
  rcases hm.sameText with ⟨hpc, rfl⟩ | hsame
  · exact h.swap hpc
  · constructor
    · rw [hsame.secured, hsame.front, hsame.appended]
      exact h.grouped
    · rw [hsame.current]
      exact h.current
    · rw [hsame.next]
      exact h.next
    · exact h.spares_of_move hm

theorem ConsInv.step {s s' : AsyncLogging size} {a : Action size} (h : ConsInv s)
    (hs : s.step a = some s') : ConsInv s' := by
  unfold AsyncLogging.step at hs
  split at hs <;> try contradiction
  cases a with
  | append msg =>
      cases hs
      exact h.append msg
  | start =>
      dsimp only at hs
      split at hs <;> cases hs
      rename_i hpc
      constructor
      · simpa [secured, unwritten, hpc, AsyncLogging.start, front] using h.grouped
      · exact h.current
      · exact h.next
      · intro hp
        rcases hp with hp | hp <;> cases hp
  | backend => exact h.backend (backend_move hs)
  | stop =>
      dsimp only at hs
      split at hs <;> cases hs
      exact ⟨h.grouped, h.current, h.next, h.spares⟩
  | stopReturns =>
      dsimp only at hs
      split at hs <;> cases hs
      exact ⟨h.grouped, h.current, h.next, h.spares⟩

theorem consInv_of_reach {guard : AsyncLogging size → Action size → Prop} {s : AsyncLogging size}
    (h : (machine size).Reach guard s) : ConsInv s := by
  apply h.invariant
  · intro s hs
    cases hs
    exact ConsInv.new
  · intro s a s' hI _ hs
    exact hI.step hs

/-- In every state a run reaches, up to an iteration that fails: the text handed
to the log file, then the backend's unwritten buffers, the queue and the current
buffer are the appended messages in lock order, each buffer holding whole
messages; and the reserve buffer, when there is one, is empty. -/
theorem log_text_conserved (s : AsyncLogging size)
    (h : (machine size).Reach (fun _ _ => True) s) :
    (s.logFile ++ (unwritten s).map content ++ s.bufferToWrite.map content ++
        [content s.curBuffer]).flatten = bytes s.appended ∧
    Grouped s.appended (s.logFile ++ (unwritten s).map content ++ s.bufferToWrite.map content ++
        [content s.curBuffer]) ∧
    ∀ b, s.nextBuffer = some b → b.data = [] := by
  have hI := consInv_of_reach h
  have hg := hI.grouped
  simp only [secured, front, ← List.append_assoc] at hg
  exact ⟨hg.flatten, hg, hI.next⟩

/-- Two messages through one iteration of the backend. -/
theorem log_text_conserved_two :
    ∃ s : AsyncLogging 4, (machine 4).run new
        [.append ⟨[1, 2], by decide⟩, .append ⟨[3, 4, 5], by decide⟩, .start, .backend, .backend,
          .backend, .backend] = some s ∧
      s.logFile = [[1, 2]] ∧
      (s.logFile ++ (unwritten s).map content ++ s.bufferToWrite.map content ++
        [content s.curBuffer]).flatten = bytes s.appended := by
  refine ⟨_, rfl, rfl, ?_⟩
  have h₀ : (machine 4).Reach (fun _ _ => True) new := .start rfl
  have hreach := h₀.of_run [.append ⟨[1, 2], by decide⟩, .append ⟨[3, 4, 5], by decide⟩, .start,
    .backend, .backend, .backend, .backend] (fun _ _ _ => trivial) rfl
  exact (log_text_conserved _ hreach).1

end MyNetLib.AsyncLogging
