import HttpServer.Loop.Theorems.Kept
import HttpServer.Loop.Theorems.Interest
import HttpServer.Loop.Theorems.HalfClose
import HttpServer.Connection.Theorems.Sequential

open Http.Parser

namespace Http

open Serial

variable {cfg : Config} {id : ConnId}

theorem Refuses.keepAlive {x : Heading} {o : Origin} {r : Response} (h : Refuses x o r) :
    r.keepAlive = false := by
  have he (status : Nat) (detail : String) : (x.error status detail).keepAlive = false := by
    simp only [Heading.error, makeErrorResponse]
    repeat' split
    all_goals rfl
  cases h <;> exact he ..

namespace Connection

variable {c : Connection} {ph : Phase} {o : Origin} {d : Bytes} {r : Response} {l₁ l₂ : List Entry}

-- A response that closes the connection is the last one.
theorem Recited.last (h : c.Recited cfg) (hf : Follows cfg c ph) (hl : c.log = l₁ ++ .final o d r :: l₂)
    (hr : r.closes) : ∀ e ∈ l₂, e.isSent := by
  have hm : .final o d r ∈ c.log := by simp [hl]
  have hk : r.keepAlive = false := by
    cases ho : o.isAnswer
    case false => exact (h.worded o d r hm ho).2.keepAlive
    case true  =>
      cases o <;> cases ho
      obtain ⟨_, _, throws, he⟩ := hf.history.result_own (List.mem_filterMap.mpr ⟨_, hm, rfl⟩)
      rw [he] at hr ⊢
      exact (runJob_closes cfg throws _).mp hr
  exact (h.ends l₁ o d r l₂ hl hk).2.2

theorem isSent_silent {l : List Entry} (h : ∀ e ∈ l, e.isSent) :
    l.filterMap Entry.notice = [] ∧ l.filterMap Entry.report = [] := by
  constructor <;> refine List.filterMap_eq_nil_iff.mpr fun e he => ?_ <;>
    cases e <;> first | rfl | cases h _ he

theorem Recited.last_message {ms₁ ms₂ : List Notice} {m : Notice} (h : c.Recited cfg)
    (hf : Follows cfg c ph) (hm : c.notices = ms₁ ++ m :: ms₂) (hc : m.closes) : ms₂ = [] := by
  obtain ⟨l₁, l, hl, _, h₂⟩ := List.filterMap_eq_append_iff.mp hm
  obtain ⟨l', e, l₂, rfl, _, he, rfl⟩ := List.filterMap_eq_cons_iff.mp h₂
  cases e <;> cases he
  case interim => cases hc
  case final o d r => exact (isSent_silent (h.last hf (by rw [hl, List.append_assoc]) hc)).1

theorem Recited.untilClose_eq (h : c.Recited cfg) (hf : Follows cfg c ph) :
    untilClose c.notices = c.notices :=
  Serial.untilClose_eq fun _ _ _ hm hc => h.last_message hf hm hc

theorem Recited.refusal (h : c.Recited cfg) (hl : c.log = l₁ ++ .final o d r :: l₂)
    (ho : o.isAnswer = false) : ∀ e ∈ l₂, e.isSent := by
  have hx := (h.worded o d r (by simp [hl]) ho).2
  exact (h.ends l₁ o d r l₂ hl hx.keepAlive).2.2

-- An error response of the loop is the last thing that is said, and the only one of its kind.
theorem Recited.refused (h : c.Recited cfg) (hf : Follows cfg c .closing) :
    ∃ throws sts owed o d r, .final o d r ∈ c.log ∧ o.isAnswer = false ∧
      c.notices = answers cfg throws sts ++ [.final r] ∧ c.reports = sts ++ owed ∧
      (o.isRefusal → owed = []) := by
  have hx : ∃ o d r, .final o d r ∈ c.log ∧ o.isAnswer = false := by
    by_contra hn
    simp only [not_exists, not_and, Bool.not_eq_false] at hn
    exact hf.history.not_closing hn rfl
  obtain ⟨o, d, r, hm, ho⟩ := hx
  obtain ⟨l₁, l₂, hl⟩ := List.append_of_mem hm
  obtain ⟨ph, ph', hh, hs⟩ := (hl ▸ hf.history).step_of_append
  obtain ⟨hm₂, hr₂⟩ := isSent_silent (h.refusal hl ho)
  have hn : ph ≠ .closing := by
    rintro rfl
    have hn : ¬∀ o d r, .final o d r ∈ l₁ → o.isAnswer := fun hn => hh.not_closing hn rfl
    simp only [not_forall, Bool.not_eq_true] at hn
    obtain ⟨o', d', r', hm', ho'⟩ := hn
    obtain ⟨l, l', rfl⟩ := List.append_of_mem hm'
    have hl : c.log = l ++ .final o' d' r' :: (l' ++ .final o d r :: l₂) := by simp [hl]
    cases h.refusal hl ho' (.final o d r) (by simp)
  obtain ⟨throws, sts, hr, ha⟩ := hh.answered hn
  refine ⟨throws, sts, ph.owed.map .request, o, d, r, hm, ho, ?_, ?_, fun ho => ?_⟩
  · simp [notices, hl, ha, hm₂]
  · rw [Connection.reports, hl, List.filterMap_append, hr, List.filterMap_cons_none rfl, hr₂,
      List.append_nil]
  · cases hs
    case overload     => cases ho
    case answer       => cases ho
    case refusal hp _ => rw [hp.resolve_right hn]; rfl

theorem Recited.sequel (h : c.Recited cfg) (hf : Follows cfg c ph) :
    ∃ throws said, c.Sequel cfg throws said := by
  have hu := h.untilClose_eq hf
  have hi {throws sts owed} (hr : c.reports = sts ++ owed) :
      untilClose (answers cfg throws sts) <+: replies cfg throws c.stream :=
    answers_replies (List.IsPrefix.trans ⟨owed, hr.symm⟩ h.heard.reports)
  by_cases hp : ph = .closing
  case neg =>
    obtain ⟨throws, sts, hr, hm⟩ := hf.history.answered hp
    refine ⟨throws, c.notices, ?_, .inl rfl, h.wire⟩
    rw [← hu, notices, hm]
    exact hi hr
  case pos =>
    subst hp
    obtain ⟨throws, sts, owed, o, d, r, hl, ho, hm, hr, hw⟩ := h.refused hf
    obtain ⟨hc, hx⟩ := h.worded o d r hl ho
    by_cases hb : o = .malformed
    case pos =>
      -- A sequential server says the same about the stream.
      subst hb
      cases hx
      obtain ⟨err, hi⟩ := h.judged d _ hl
      rw [hw rfl, List.append_nil] at hr
      refine ⟨throws, c.notices, ?_, .inl rfl, h.wire⟩
      rw [← hu, hm, replies, hi, hr]
      exact List.prefix_rfl
    case neg =>
      have hs : untilClose (answers cfg throws sts) = answers cfg throws sts := by
        refine Serial.untilClose_eq fun ms₁ m ms₂ he hn => ?_
        rw [he, List.append_assoc] at hm
        exact (List.append_eq_nil_iff.mp (h.last_message hf hm hn)).1
      refine ⟨throws, answers cfg throws sts, ?_, .inr ⟨o, r, hm, hc, hb, hx⟩, h.wire⟩
      rw [← hs]
      exact hi hr

end Connection

namespace System

open Transition
open Connection hiding refuses

variable {s : System} {c : Connection}

theorem recited_reaches {ok : System → Action → Prop} {started : Nat} {now : Time}
    (h : Reaches (Http.step cfg) ok (init cfg started now) s) (hc : s.heap id = some c) :
    c.Recited cfg :=
  kept_reaches (P := Recited cfg) (fun hm hr h => hm.recited h hr) .new h id c hc

-- Whatever else goes on, each peer gets what a sequential server would send it for its stream.
theorem sequential_replies (cfg : Config) (started : Nat) (now : Time)
    (h : Reaches (Http.step cfg) (fun _ _ => True) (init cfg started now) s)
    (hc : s.heap id = some c) : ∃ throws said, c.Sequel cfg throws said := by
  obtain ⟨ph, hf, _⟩ := (Tracked.reaches h).follows hc
  exact (recited_reaches h hc).sequel hf

-- The peer has sent a request and something that is none, and the first response is under way.
def askedMalformed : List Action :=
  asked "GET / HTTP/1.1\r\n\r\nGET\r\n" ++ served [.accepted 9]

theorem sequential_replies_malformed :
    ∃ s c, exec (Http.step {}) (fun _ _ => True) (init {} 1 0) askedMalformed = some s ∧
      s.heap 1 = some c ∧ c.notices.length = 2 ∧ ∃ throws said, c.Sequel {} throws said := by
  have ⟨s, hs, hr, c, hc, hm⟩ := exec_any (Http.step {}) (fun _ _ => True) (init {} 1 0)
    askedMalformed (fun s => ∃ c ∈ s.heap 1, c.notices.length = 2) (by decide +kernel)
  exact ⟨s, c, hs, hc, hm, sequential_replies {} 1 0 hr hc⟩

-- When the loop waits, it has nothing left to say to a peer that it listens to.
theorem sequential_complete (cfg : Config) (started : Nat) (now : Time)
    (h : Reaches (Http.step cfg) (fun _ x => x.modOk) (init cfg started now) s) (hp : s.pc = .wait)
    (hc : s.heap id = some c) (hw : c.wantRead cfg) :
    ∃ throws, c.notices = replies cfg throws c.stream ∧
      c.log.flatMap Entry.queued = c.log.flatMap Entry.handed ++ c.output := by
  have hr := recited_reaches h hc
  have hi := wantRead_idle hw
  obtain ⟨ph, hf, _⟩ := (Tracked.reaches h).follows hc
  cases hi.phase hf
  obtain ⟨throws, sts, he, hm⟩ := hf.history.answered nofun
  have he : c.log.filterMap Entry.report = sts := he.trans (List.append_nil _)
  have hd := Watched.reaches h
  have hq : c.Quiet cfg := by
    rcases hd.quiet hc hw with hq | hq | hq
    case inl     => exact hq
    case inr.inl => simp [hd.rescans (by simp [hp, Pc.rescanned])] at hq
    case inr.inr => simp [hp, Pc.pending] at hq
  have hx : ideal cfg.limits {} c.stream = (c.reports, none) := by
    rcases ha : c.parser.parse cfg.limits c.input with ⟨st, p, b⟩
    rw [Quiet, ha] at hq
    cases hq
    have hx : (c.store p b).Complete cfg := (hd.inStep hc hi.alive hi.opens).complete ha
    exact hx
  refine ⟨throws, ?_, hr.output hi.alive⟩
  rw [replies, hx, ← hr.untilClose_eq hf, notices, hm, Connection.reports, he]
  exact congrArg untilClose (List.append_nil _).symm

-- The peer has got the response to its request, in two pieces.
def servedInParts : List Action :=
  asked "GET / HTTP/1.1\r\n\r\n" ++ served [.accepted 9, .accepted 1000]

theorem sequential_complete_idle :
    ∃ s c, exec (Http.step {}) (fun _ x => x.modOk) (init {} 1 0) servedInParts = some s ∧
      s.heap 1 = some c ∧ c.notices.length = 1 ∧ ∃ throws, c.notices = replies {} throws c.stream ∧
        c.log.flatMap Entry.queued = c.log.flatMap Entry.handed ++ c.output := by
  have ⟨s, hs, hr, hw, c, hc, hl, hm⟩ := exec_any (Http.step {}) (fun _ x => x.modOk) (init {} 1 0)
    servedInParts (fun s => s.pc = .wait ∧ ∃ c ∈ s.heap 1, c.wantRead {} ∧ c.notices.length = 1)
    (by decide +kernel)
  exact ⟨s, c, hs, hc, hm, sequential_complete {} 1 0 hr hw hc hl⟩

end System
end Http
