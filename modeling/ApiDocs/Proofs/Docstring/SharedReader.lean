import Mathlib.Data.List.Basic
import ApiDocs.Docstring.Session
import ApiDocs.Proofs.Text.Encoding

/-!
# A reader that is shared

Several callers ask one reader, each its own questions in its own order. A question takes one step,
or two: the memory is looked up, and after a miss the new result is stored. The steps of the
callers come in any order, so another result may be stored between the two. No caller can tell:
what is remembered is always the result of reading some text, and it is found under that text
only.

* `Question.answer`: the answer that a question has without any memory.
* `Question.askAll_eq`: the answers to questions that are asked one after another.
* `Caller.step`: one step of a caller; `Caller.step_cons`: it is a question, or half of one.
* `Caller.outlook`: the replies that a caller has and will have; no step changes it.
* `SharedReader.Inv.step`, `SharedReader.Inv.run`: what one step of any caller keeps, and a run.
* `SharedReader.run_start`: every reply is the answer that the question has without any memory.
-/

namespace ApiDocs

/-! ## Answers without a memory -/

/-- The answer that a question has without any memory. -/
def Question.answer : Question → Reply
  | all none => .all .empty
  | all (some raw) => .all (Docstring.parse raw)
  | allOfBytes bytes =>
    match Utf8.decode bytes with
    | .ok raw => .all (Docstring.parse raw)
    | .error e => .notText ⟨e⟩
  | description raw => .text (Docstring.parse raw).description
  | params raw => .params (Docstring.parse raw).params
  | returns raw => .returns (Docstring.parse raw).returns
  | raises raw => .raises (Docstring.parse raw).raises
  | examples raw => .text (Docstring.parse raw).examples

theorem Question.answer_eq (q : Question) : q.answer =
    match q.subject with
    | .error e => .notText e
    | .ok none => q.replyFrom .empty
    | .ok (some raw) => q.replyFrom (Docstring.parse raw) := by
  cases q with
  | all raw => cases raw <;> rfl
  | allOfBytes bytes =>
    simp only [answer, subject]
    cases Utf8.decode bytes <;> rfl
  | description raw | params raw | returns raw | raises raw | examples raw => rfl

/-- Bytes are answered as the text that they are the bytes of. -/
theorem Question.answer_encode (t : Text) :
    (allOfBytes (Utf8.encode t)).answer = .all (Docstring.parse t) := by
  simp only [answer, Utf8.decode_encode]

/-! ## The memory -/

/-- Nothing is remembered, or the result of reading some text. -/
def Memory.Sound (m : Memory) : Prop := m = none ∨ ∃ raw, m = some (Docstring.parse raw)

/-- What is found under a text is the result of reading it, since every result carries the text
that was read. -/
theorem Memory.Sound.eq_of_lookup? {m : Memory} (h : m.Sound) {raw : Text} {d : Docstring}
    (hd : m.lookup? raw = some d) : d = Docstring.parse raw := by
  obtain ⟨hm, hraw⟩ := Option.filter_eq_some_iff.mp hd
  have hraw : d.raw = raw := by simpa using hraw
  rcases h with hnone | ⟨t, ht⟩
  · rw [hnone] at hm
    cases hm
  · obtain rfl : d = Docstring.parse t := Option.some.inj (hm.symm.trans ht)
    obtain rfl : t = raw := hraw
    rfl

namespace Question

/-- A question that is asked with nothing between its two steps. -/
theorem ask_spec (q : Question) {m : Memory} (h : m.Sound) :
    (q.ask m).1 = q.answer ∧ (q.ask m).2.Sound := by
  rw [q.answer_eq]
  unfold ask
  cases q.subject with
  | error e => exact ⟨rfl, h⟩
  | ok raw =>
    cases raw with
    | none => exact ⟨rfl, h⟩
    | some raw =>
      simp only [Memory.parse]
      cases hd : m.lookup? raw with
      | none => exact ⟨rfl, .inr ⟨raw, rfl⟩⟩
      | some d => exact ⟨by rw [h.eq_of_lookup? hd], h⟩

/-- Questions that are asked one after another get the answers that they have without a memory. -/
theorem askAll_eq (qs : List Question) {m : Memory} (h : m.Sound) :
    askAll qs m = qs.map answer := by
  induction qs generalizing m with
  | nil => rfl
  | cons q qs ih =>
    obtain ⟨hreply, hm⟩ := q.ask_spec h
    rw [askAll, List.map_cons, ← hreply, ← ih hm]

end Question

/-! ## Callers -/

/-- A caller of a reader: the questions that it has still to ask, the question with the new result
that it has not stored yet, and the replies that it has got. -/
structure Caller where
  questions : List Question
  unstored : Option (Question × Docstring)
  replies : List Reply

namespace Caller

/-- One step of a caller. A result that is not stored yet is stored; otherwise the next question is
asked, and the text that it is about is looked up. -/
def step (c : Caller) (m : Memory) : Caller × Memory :=
  match c.unstored, c.questions with
  | some (q, d), _ => (⟨c.questions, none, c.replies ++ [q.replyFrom d]⟩, m.store d)
  | none, [] => (c, m)
  | none, q :: rest =>
    match q.subject with
    | .error e => (⟨rest, none, c.replies ++ [.notText e]⟩, m)
    | .ok none => (⟨rest, none, c.replies ++ [q.replyFrom .empty]⟩, m)
    | .ok (some raw) =>
      match m.lookup? raw with
      | some d => (⟨rest, none, c.replies ++ [q.replyFrom d]⟩, m)
      | none => (⟨rest, some (q, Docstring.parse raw), c.replies⟩, m)

/-- The step in which a question is asked is the whole question, which leaves the memory as it is,
or it is the first half of one that stores what was read. -/
theorem step_cons (q : Question) (rest : List Question) (replies : List Reply) (m : Memory) :
    (step ⟨q :: rest, none, replies⟩ m = (⟨rest, none, replies ++ [(q.ask m).1]⟩, m) ∧
        (q.ask m).2 = m) ∨
      ∃ raw, step ⟨q :: rest, none, replies⟩ m =
          (⟨rest, some (q, Docstring.parse raw), replies⟩, m) ∧
        q.ask m = (q.replyFrom (Docstring.parse raw), m.store (Docstring.parse raw)) := by
  simp only [step, Question.ask, Memory.parse]
  cases q.subject with
  | error e => exact .inl ⟨rfl, rfl⟩
  | ok raw =>
    cases raw with
    | none => exact .inl ⟨rfl, rfl⟩
    | some raw =>
      dsimp only
      cases m.lookup? raw with
      | none => exact .inr ⟨raw, rfl, rfl⟩
      | some d => exact .inl ⟨rfl, rfl⟩

/-- The replies that a caller has, and those that it will have if nothing disturbs it. -/
def outlook (c : Caller) : List Reply :=
  c.replies ++ (c.unstored.map fun x => x.1.replyFrom x.2).toList ++
    c.questions.map Question.answer

/-- Number of steps that a caller needs at most. -/
def stepsLeft (c : Caller) : Nat := 2 * c.questions.length + c.unstored.toList.length

/-- What is not stored yet is the result of reading some text. -/
def Sound (c : Caller) : Prop := ∀ x ∈ c.unstored, ∃ raw, x.2 = Docstring.parse raw

variable {c : Caller} {m : Memory}

/-- A step of a caller keeps the memory sound, changes nothing about the replies that the caller
has and will have, and brings the caller nearer to its end. -/
theorem step_spec (hc : c.Sound) (hm : m.Sound) :
    (c.step m).1.Sound ∧ (c.step m).2.Sound ∧ (c.step m).1.outlook = c.outlook ∧
      (c.step m).1.stepsLeft ≤ c.stepsLeft - 1 := by
  obtain ⟨questions, unstored, replies⟩ := c
  cases unstored with
  | some x =>
    obtain ⟨q, d⟩ := x
    obtain ⟨raw, rfl⟩ := hc (q, d) rfl
    exact ⟨by simp [step, Sound], .inr ⟨raw, rfl⟩, by simp [step, outlook],
      by simp [step, stepsLeft]⟩
  | none =>
    cases questions with
    | nil => exact ⟨hc, hm, rfl, by simp [step, stepsLeft]⟩
    | cons q rest =>
      obtain ⟨hanswer, -⟩ := q.ask_spec hm
      rcases step_cons q rest replies m with ⟨hstep, -⟩ | ⟨raw, hstep, hask⟩
      · rw [hstep]
        refine ⟨by simp [Sound], hm, by simp [outlook, hanswer], ?_⟩
        simp only [stepsLeft, List.length_cons, Option.toList_none, List.length_nil]
        omega
      · rw [hask] at hanswer
        rw [hstep]
        refine ⟨by simp [Sound], hm, by simp [outlook, ← hanswer], ?_⟩
        simp only [stepsLeft, List.length_cons, Option.toList_none, Option.toList_some,
          List.length_nil]
        omega

theorem replies_prefix_outlook (c : Caller) : c.replies <+: c.outlook := by
  rw [outlook, List.append_assoc]
  exact List.prefix_append _ _

/-- A caller with no steps left has all its replies. -/
theorem replies_eq_outlook (h : c.stepsLeft = 0) : c.replies = c.outlook := by
  simp only [stepsLeft, Nat.add_eq_zero_iff, Nat.mul_eq_zero, List.length_eq_zero_iff,
    Option.toList_eq_nil_iff] at h
  simp [outlook, h.1.resolve_left (by decide), h.2]

end Caller

/-! ## All callers -/

/-- A reader with all its callers. -/
structure SharedReader where
  memory : Memory
  callers : List Caller

namespace SharedReader

/-- A new reader, and callers with the questions that each of them will ask. -/
def start (programs : List (List Question)) : SharedReader :=
  ⟨none, programs.map fun questions => ⟨questions, none, []⟩⟩

/-- One step of the caller with number `i`. -/
def step (s : SharedReader) (i : Nat) : SharedReader :=
  match s.callers[i]? with
  | some c => ⟨(c.step s.memory).2, s.callers.set i (c.step s.memory).1⟩
  | none => s

/-- The steps of all callers, in the order of a schedule. -/
def run (s : SharedReader) (schedule : List Nat) : SharedReader := schedule.foldl step s

/-- What holds after the steps `past`: the memory is sound, and each caller has in sight the
answers to its questions, with two steps at most for each question, of which some are done. -/
structure Inv (programs : List (List Question)) (past : List Nat) (s : SharedReader) : Prop where
  memory : s.memory.Sound
  length : s.callers.length = programs.length
  caller : ∀ i program c, programs[i]? = some program → s.callers[i]? = some c →
    c.Sound ∧ c.outlook = program.map Question.answer ∧
      c.stepsLeft ≤ 2 * program.length - past.count i

variable {programs : List (List Question)} {past : List Nat} {s : SharedReader}

theorem inv_start (programs : List (List Question)) : Inv programs [] (start programs) := by
  refine ⟨.inl rfl, by simp [start], fun i program c hprogram hc => ?_⟩
  simp only [start, List.getElem?_map, hprogram, Option.map_some, Option.some.injEq] at hc
  subst hc
  exact ⟨by simp [Caller.Sound], by simp [Caller.outlook], by simp [Caller.stepsLeft]⟩

theorem Inv.step (h : Inv programs past s) (i : Nat) :
    Inv programs (past ++ [i]) (s.step i) := by
  unfold SharedReader.step
  cases hi : s.callers[i]? with
  | none =>
    refine ⟨h.memory, h.length, fun j program c hprogram hc => ?_⟩
    have hne : i ≠ j := by
      rintro rfl
      simp [hi] at hc
    simpa [List.count_singleton, hne] using h.caller j program c hprogram hc
  | some c =>
    have hlt : i < programs.length := by
      rw [← h.length]
      exact (List.getElem?_eq_some_iff.mp hi).1
    obtain ⟨hsound, houtlook, hleft⟩ :=
      h.caller i programs[i] c (List.getElem?_eq_getElem hlt) hi
    obtain ⟨hsound', hmemory, houtlook', hleft'⟩ := Caller.step_spec hsound h.memory
    refine ⟨hmemory, by simp [h.length], fun j program d hprogram hd => ?_⟩
    by_cases hij : i = j
    · subst hij
      obtain rfl : programs[i] = program := by
        simpa [List.getElem?_eq_getElem hlt] using hprogram
      obtain rfl : (c.step s.memory).1 = d := by
        simpa [List.getElem?_set_self (h.length.symm ▸ hlt)] using hd
      refine ⟨hsound', houtlook'.trans houtlook, ?_⟩
      rw [List.count_append, List.count_singleton_self]
      omega
    · rw [List.getElem?_set_ne hij] at hd
      simpa [List.count_singleton, hij] using h.caller j program d hprogram hd

theorem Inv.run (h : Inv programs past s) (schedule : List Nat) :
    Inv programs (past ++ schedule) (s.run schedule) := by
  induction schedule generalizing past s with
  | nil => simpa [SharedReader.run] using h
  | cons i schedule ih =>
    have hrest := ih (h.step i)
    rwa [List.append_assoc, List.singleton_append] at hrest

/-- **The memory of a reader cannot be seen.** Whatever questions any number of callers ask, and
in whatever order the steps of the callers come, the reader remembers nothing or the result of
reading some text. The replies that a caller has got are the answers that its questions have
without any memory, and it has got all of them after two steps for each question. The same answers
are given to questions that are asked one after another, and bytes are answered as the text that
they are the bytes of. -/
theorem run_start (programs : List (List Question)) (schedule : List Nat) :
    (((start programs).run schedule).memory = none ∨
        ∃ raw, ((start programs).run schedule).memory = some (Docstring.parse raw)) ∧
      (∀ i program, programs[i]? = some program →
        ∃ c, ((start programs).run schedule).callers[i]? = some c ∧
          c.replies <+: program.map Question.answer ∧
          (2 * program.length ≤ schedule.count i →
            c.replies = program.map Question.answer)) ∧
      (∀ program, Question.askAll program none = program.map Question.answer) ∧
      ∀ t, (Question.allOfBytes (Utf8.encode t)).answer = .all (Docstring.parse t) := by
  have hinv := (inv_start programs).run schedule
  rw [List.nil_append] at hinv
  refine ⟨hinv.memory, fun i program hprogram => ?_,
    fun program => Question.askAll_eq program (.inl rfl), Question.answer_encode⟩
  have hlt : i < ((start programs).run schedule).callers.length := by
    rw [hinv.length]
    exact (List.getElem?_eq_some_iff.mp hprogram).1
  have hc := List.getElem?_eq_getElem hlt
  obtain ⟨-, houtlook, hleft⟩ := hinv.caller i program _ hprogram hc
  refine ⟨_, hc, ?_, fun hcount => ?_⟩
  · rw [← houtlook]
    exact Caller.replies_prefix_outlook _
  · rw [← houtlook]
    exact Caller.replies_eq_outlook (by omega)

/-- Both callers look up in vain before either of them stores, and the first finds the result of
the second where its own was. -/
theorem run_start_interleaved :
    let first : List Question := [.description "One.".toList, .params "One.".toList]
    let second : List Question := [.all (some "Two.".toList)]
    let s := (start [first, second]).run [0, 1, 0, 1, 0, 0]
    (∃ c, s.callers[0]? = some c ∧ c.replies = first.map Question.answer) ∧
      ∃ c, s.callers[1]? = some c ∧ c.replies = second.map Question.answer := by
  intro first second s
  obtain ⟨-, hreplies, -⟩ := run_start [first, second] [0, 1, 0, 1, 0, 0]
  obtain ⟨c, hc, -, hall⟩ := hreplies 0 first rfl
  obtain ⟨d, hd, -, hall'⟩ := hreplies 1 second rfl
  exact ⟨⟨c, hc, hall (by decide)⟩, d, hd, hall' (by decide)⟩

end SharedReader

end ApiDocs
