import HttpServer.Loop.Theorems.Closing
import HttpServer.Connection.Theorems.HalfClose

namespace Http

-- The events are not about an error or a hang-up.
def Pc.undisturbed : Pc → Bool
  | dispatch (.conn _ err hup _ _ :: _) => !err && !hup
  | _                                   => true

def ParseStatus.requested : ParseStatus → Option Request
  | request req => some req
  | _           => none

theorem History.not_closing {cfg : Config} {id : ConnId} {l : List Entry} {ph : Phase}
    (h : History cfg id l ph)
    (ha : ∀ origin date res, .final origin date res ∈ l → origin.isAnswer) : ph ≠ .closing := by
  induction h
  case nil => nofun
  case snoc hs hi =>
    have hi := hi fun _ _ _ hm => ha _ _ _ (List.mem_append_left _ hm)
    cases hs
    case received | sent => exact hi
    case overload => cases ha _ _ _ (List.mem_append_right _ List.mem_cons_self)
    case refusal o _ _ ho _ =>
      have ha := ha _ _ _ (List.mem_append_right _ List.mem_cons_self)
      cases o <;> cases ho <;> cases ha
    all_goals nofun

namespace Connection

-- The requests that are complete in the bytes which the peer has sent.
def heardRequests (cfg : Config) (c : Connection) : List Request :=
  (Parser.ideal cfg.limits {} c.stream).1.filterMap ParseStatus.requested

variable {cfg : Config} {c c' : Connection}

theorem reports_requested (c : Connection) :
    c.reports.filterMap ParseStatus.requested = c.requests := by
  rw [reports, requests, List.filterMap_filterMap]
  congr
  funext e
  cases e <;> rfl

theorem onTick_peerEof {now : Time} {io : Io} : (c.onTick cfg now io).1.peerEof = c.peerEof := by
  rcases onTick_cases cfg now c io with h | ⟨_, _, _, h⟩ | h | ⟨_, h⟩ <;> rw [h]
  case inr.inr.inr => exact flush_steady.2
  all_goals rfl

theorem beginDraining_peerEof : c.beginDraining.peerEof = c.peerEof := by
  simp only [beginDraining]
  split <;> rfl

-- A connection that has seen the end of the stream does not read.
theorem refusesRead_eof {io : Io} (h : c.peerEof) : c.refusesRead cfg io = false := by
  simp [refusesRead, wantRead, h]

end Connection

namespace System

open Transition
open Connection hiding refuses

-- The connection that the next step of the loop reads from.
def reader (s : System) : Option Connection :=
  s.reading.bind s.heap

-- There is no error, hang-up or shutdown, nothing that is read gets refused, and the pool has room
-- for the requests.
def calm (cfg : Config) (s : System) (x : Action) : Bool :=
  !s.draining && match x with
    | .loop a     => s.pc.undisturbed && s.reader.all fun c =>
      !c.refusesRead cfg (a.io c.id) && !(c.onReadable cfg (s.env a c)).1.overloaded
    | .worker _ _ => true

-- If a read finds the end of the stream and no complete request, then nothing waits to be sent. If
-- a result is for a connection whose peer has gone silent, then it closes the connection.
def settles (cfg : Config) (s : System) : Action → Bool
  | .loop a     => (s.reader.all fun c => !c.wantRead cfg || c.settlesRead cfg (a.io c.id)) &&
    match s.pc with
      | .deliver (y :: _) => (s.heap y.job.connId).all fun c => !c.peerEof || y.response.closes
      | _                 => true
  | .worker _ _ => true

-- A connection whose peer has ended its stream: the complete requests are answered in order, up to
-- the first response that closes, and then the connection is given up.
structure HalfClosed (cfg : Config) (s : System) (c : Connection) : Prop where
  waits    : c.inFlight → s.pc.left = false → s.outstandingFor c.id ≠ []
  jobs     : c.submissions.map (·.req) = c.requests
  answers  : c.inFlight = false → List.Forall₂ (fun req x => ∃ throws, x.2 = runJob cfg throws req)
    c.requests c.results
  served   : c.inFlight = false → ∃ rest, c.heardRequests cfg = c.requests ++ rest ∧
    (rest = [] ∨ ∃ x, c.results.getLast? = some x ∧ x.2.closes)
  released : s.pc = .wait → c.inFlight = false → c.output = [] →
    c.closeAfter ∧ ∀ fd, (fd, c.id) ∉ s.conns
  patient  : ∀ date res, .final .timeout date res ∉ c.log

-- What all connections have made of their streams.
structure Listens (cfg : Config) (s : System) : Prop where
  heard : ∀ {id c}, s.heap id = some c → c.Heard cfg
  ended : ∀ {id c}, s.heap id = some c → c.alive → c.peerEof → c.Ended cfg

variable {cfg : Config} {s s' : System} {c c' : Connection} {id : ConnId} {x : Action} {a : Answers}
variable {as : List Act}

theorem heard_step (hk : s.Keyed) (h : s.Listens cfg) (hs : step cfg s x = some s')
    (hc : s'.heap id = some c') : c'.Heard cfg := by
  have ⟨c, hn, hb⟩ := step_heap hk hs hc
  have ⟨_, ha⟩ := hb.acts
  refine ha.moves.heard ?_
  rcases hn with hn | ⟨_, _, _, rfl⟩
  case inl => exact h.heard hn
  case inr => exact .new ..

-- A connection that is not finished for any other reason does not time out.
theorem ended_timesOut {fd : Fd} {now : Time} (h : c.Ended cfg) (hr : s.Registry) (hw : s.Swept)
    (hd : s.draining = false) (hp : s.pc = .timer) (hm : (fd, id) ∈ s.conns)
    (hc : s.heap id = some c) : c.timesOut cfg now = false := by
  refine Bool.eq_false_iff.mpr fun ht => ?_
  have ho := timesOut_opens hr hw hd hp hm hc ht
  simp only [timesOut, Bool.and_eq_true, Bool.not_eq_true'] at ht
  rcases h.ends with hb | hb
  case inl => simp [ht.1.1.1.2] at hb
  case inr => simp [ho] at hb

-- The peer had ended its stream before the step.
theorem ended_step (hr : s.Registry) (hw : s.Swept) (hd : s.draining = false) (h : c.Ended cfg)
    (he : c.peerEof) (hx : s.settles cfg x) (hs : step cfg s x = some s') (hc : s.heap id = some c)
    (hc' : s'.heap id = some c') (hb : Callback cfg s c x c') (ha : c'.alive) : c'.Ended cfg := by
  obtain ⟨as, hm⟩ := hb.acts
  cases x
  case worker => cases hb; exact h
  case loop a =>
    by_cases hf : .refuse ∈ as
    case neg =>
      refine hm.moves.ended h he ha hf fun y hy => ?_
      obtain ⟨_, hi, _, hp⟩ := hm.answer y hy
      rw [hr.keyed.id_eq hc] at hi
      simp only [settles, hp, hi, hc, Option.all_some, he, Bool.not_true, Bool.false_or,
        Bool.and_eq_true] at hx
      exact hx.2
    case pos =>
      have hx := hm.refuse hf
      simp only [refuses, refusesRead_eof he, Bool.and_false, Bool.false_or, Bool.and_eq_true,
        decide_eq_true_eq] at hx
      have hp := hx.1.1
      by_cases hl : ∃ fd, (fd, id) ∈ s.conns
      case pos =>
        obtain ⟨_, hm⟩ := hl
        simp [ended_timesOut h hr hw hd hp hm hc] at hx
      case neg =>
        rw [step_unlisted hr.keyed hs (by simp [hp, Pc.serving]) hc (not_exists.mp hl) hc']
        exact h

-- A read that finds the end of the stream.
theorem read_ended (h : c.Heard cfg) (he : c.peerEof = false) (hd : s.reader = some c)
    (hk : s.calm cfg (.loop a)) (hx : s.settles cfg (.loop a))
    (hm : Moves cfg (c.onReadable cfg (s.env a c)).1 [] c')
    (hp : c'.peerEof = (c.onReadable cfg (s.env a c)).1.peerEof) (ha : c'.alive) (he' : c'.peerEof) :
    c'.Ended cfg := by
  rw [hp] at he'
  simp only [calm, hd, Option.all_some, Bool.and_eq_true, Bool.not_eq_true'] at hk
  simp only [settles, hd, Option.all_some, Bool.and_eq_true, Bool.or_eq_true, Bool.not_eq_true'] at hx
  cases hw : c.wantRead cfg
  case false =>
    have hr : c.onReadable cfg (s.env a c) = (c, s.env a c) := by simp [onReadable, hw]
    simp [hr, he] at he'
  case true =>
    have hs := hx.1.resolve_left (by simp [hw])
    have hd := onReadable_ended hw h hk.2.2.2 hk.2.2.1 hs (hm.alive ha) he'
    exact hm.ended hd he' ha (by simp) (by simp)

theorem Applied.peerEof {mod : Ctl} (h : Applied cfg mod c c') : c'.peerEof = c.peerEof := by
  cases h <;> rfl

-- After a read there may be something to send.
theorem onEvent_flush (cfg : Config) (input output : Bool) (c : Connection) (env : Env) :
    Moves cfg (if input then c.onReadable cfg env else (c, env)).1 []
      (onEvent cfg false false input output c env).1 ∧
    (onEvent cfg false false input output c env).1.peerEof =
      (if input then c.onReadable cfg env else (c, env)).1.peerEof := by
  simp only [onEvent, Bool.or_self, Bool.false_eq_true, ite_false]
  generalize (if input then c.onReadable cfg env else (c, env)) = r
  split
  case isTrue  => exact ⟨flush_moves .., flush_steady.2⟩
  case isFalse => exact ⟨.refl, rfl⟩

-- The peer ends its stream in the step.
theorem ends_step (hk : s.Keyed) (h : c.Heard cfg) (he : c.peerEof = false) (hc : s.heap id = some c)
    (hq : s.calm cfg x) (hx : s.settles cfg x) (hb : Callback cfg s c x c') (ha : c'.alive)
    (he' : c'.peerEof) : c'.Ended cfg := by
  have hi := hk.id_eq hc
  cases hb
  case keep => simp [he] at he'
  case result hb => rw [hb.peerEof, onWorkerResult_steady.2, he] at he'; cases he'
  case drain     => rw [beginDraining_peerEof, he] at he'; cases he'
  case tick      => rw [onTick_peerEof, he] at he'; cases he'
  case kill      => cases ha
  case rescan hp hw hb =>
    have hd : s.reader = some c := by simp [reader, reading, hp, hi, hc]
    exact read_ended h he hd hq hx hb.moves hb.peerEof ha he'
  case event err hup input output _ a hp hf hb =>
    have hn : err = false ∧ hup = false := by
      simp only [calm, hp, Pc.undisturbed, Bool.and_eq_true, Bool.not_eq_true'] at hq
      exact hq.2.1
    obtain ⟨rfl, rfl⟩ := hn
    obtain ⟨hm, ho⟩ := onEvent_flush cfg input output c (s.env a c)
    cases input
    case false =>
      rw [hb.peerEof, ho] at he'
      simp [he] at he'
    case true =>
      have hd : s.reader = some c := by simp [reader, reading, hp, hf, hi, hc]
      exact read_ended h he hd hq hx (hm.before hb.moves) (hb.peerEof.trans ho) ha he'

-- A connection that has just been accepted is not read from.
theorem accepting_peerEof (hp : s.pc.accepting) (he : c.peerEof = false)
    (hb : Callback cfg s c x c') : c'.peerEof = false := by
  cases hb
  case keep | kill    => exact he
  case tick           => exact onTick_peerEof.trans he
  case drain          => exact beginDraining_peerEof.trans he
  case event hq _ _ => simp [hq, Pc.accepting] at hp
  case result hq _ _ => simp [hq, Pc.accepting] at hp
  case rescan hq _ _ => simp [hq, Pc.accepting] at hp

theorem calm_draining (h : s.calm cfg x) : s.draining = false := by
  simp only [calm, Bool.and_eq_true, Bool.not_eq_true'] at h
  exact h.1

theorem Listens.step (hr : s.Registry) (hw : s.Swept) (h : s.Listens cfg) (hq : s.calm cfg x)
    (hx : s.settles cfg x) (hs : Http.step cfg s x = some s') : s'.Listens cfg where
  heard hc := heard_step hr.keyed h hs hc
  ended := by
    intro id c' hc' ha he'
    have ⟨c, hn, hb⟩ := step_heap hr.keyed hs hc'
    have ⟨_, hm⟩ := hb.acts
    rcases hn with hn | ⟨_, _, _, rfl⟩
    case inl =>
      cases he : c.peerEof
      case false => exact ends_step hr.keyed (h.heard hn) he hn hq hx hb ha he'
      case true  =>
        have hi := h.ended hn (hm.moves.alive ha) he
        exact ended_step hr hw (calm_draining hq) hi he hx hs hn hc' hb ha
    case inr hl hu _ =>
      have hp : s.pc.accepting := by
        refine Bool.of_not_eq_false fun hp => ?_
        rw [(step_admits_none hs hp).1] at hu
        exact Nat.not_le_of_lt hl hu
      simp [accepting_peerEof hp rfl hb] at he'

theorem Listens.reaches {started : Nat} {now : Time}
    (h : Reaches (Http.step cfg) (fun s x => s.calm cfg x ∧ s.settles cfg x) (init cfg started now) s) :
    s.Listens cfg := by
  refine h.invariant ⟨by simp [init], by simp [init]⟩ fun hr hi ⟨hq, hx⟩ hs => ?_
  exact hi.step (.reaches hr) (.reaches hr) hq hx hs

theorem wait_idle {started : Nat} {now : Time} {ok : System → Action → Prop}
    (hk : ∀ {s x}, ok s x → s.draining = false)
    (h : Reaches (Http.step cfg) ok (init cfg started now) s) (hp : s.pc = .wait) :
    s.draining = false := by
  cases h
  case refl         => rfl
  case tail _ ha hs => exact (step_draining hs (hk ha)).resolve_right (by simp [hp])

theorem half_closed (cfg : Config) (started : Nat) (now : Time)
    (h : Reaches (Http.step cfg) (fun s x => s.calm cfg x ∧ s.settles cfg x) (init cfg started now) s)
    (hc : s.heap id = some c) (ha : c.alive) (he : c.peerEof) : s.HalfClosed cfg c := by
  have hl := Listens.reaches h
  have hd := hl.ended hc ha he
  have ht := Tracked.reaches h
  obtain ⟨ph, hf, hj⟩ := ht.follows hc
  have hn := hf.history.not_closing hd.answers
  have hm := hf.flags ha
  constructor
  case waits =>
    intro hb hl
    rw [ht.keyed.id_eq hc, hj ha hl]
    cases ph <;> simp_all [Matches]
  case jobs =>
    obtain ⟨rest, hr, hi, _, hb⟩ := hf.history.submissions
    have hn : rest = [] := by cases ph <;> simp_all [Matches]
    rw [requests, hr, hn, List.append_nil]
    rfl
  case answers =>
    intro hi
    obtain ⟨rest, hr, hq, _⟩ := hf.history.submissions
    have hp : ph = .idle := by cases ph <;> simp_all [Matches]
    have hx := hf.history.answers
    have hl : (c.log.filterMap Entry.request).length ≤ (c.log.filterMap Entry.result).length := by
      rw [hr, hq hp, hf.history.results, hp]
      simp
    rw [List.take_of_length_le hl] at hx
    exact hx
  case served =>
    intro hi
    rcases hd.rest hi with hr | hr
    case inl =>
      refine ⟨[], ?_, .inl rfl⟩
      rw [heardRequests, hr, List.append_nil]
      exact reports_requested c
    case inr =>
      obtain ⟨rest, hp⟩ := (hl.heard hc).reports
      refine ⟨rest.filterMap ParseStatus.requested, ?_, .inr hr⟩
      rw [heardRequests, ← hp, List.filterMap_append, reports_requested]
  case released =>
    intro hp hi ho
    have hf := (hd.ends.resolve_left (by simp [hi]))
    refine ⟨hf, fun fd hm => ?_⟩
    have hn : s.draining = false := wait_idle (fun hk => calm_draining hk.1) h hp
    have hw := (Swept.reaches h).idle (by simp [hp, Pc.swept]) hn
    rw [ht.keyed.id_eq hc] at hm
    have hm := (Registry.reaches h).listed hm hc (finished_iff.mpr (.inr ⟨hf, hi, ho⟩))
    simp [hw] at hm
  case patient => exact fun date res hm => by cases hd.answers _ _ _ hm

-- The second request asks to close. The end of the stream is read with it, and its response is sent
-- in part.
def closedLast : List Action :=
  asked "GET / HTTP/1.1\r\n\r\n" ++ served [.accepted 1000] ++
    arrival [.received (ascii "GET / HTTP/1.1\r\nConnection: close\r\n\r\n"), .received []] ++
    (served [.accepted 10]).take 17

theorem half_closed_last :
    ∃ s c, exec (Http.step {}) (fun s x => s.calm {} x ∧ s.settles {} x) (init {} 1 0)
      closedLast = some s ∧ s.heap 1 = some c ∧ s.pc = .wait ∧ c.output ≠ [] ∧
      c.results.length = 2 ∧ s.HalfClosed {} c := by
  have ⟨s, hs, hr, hw, c, hc, ha, he, ho, hl⟩ := exec_any (Http.step {})
    (fun s x => s.calm {} x ∧ s.settles {} x) (init {} 1 0) closedLast
    (fun s => s.pc = .wait ∧ ∃ c ∈ s.heap 1, c.alive ∧ c.peerEof ∧ c.output ≠ [] ∧
      c.results.length = 2) (by decide +kernel)
  exact ⟨s, c, hs, hc, hw, ho, hl, half_closed {} 1 0 hr hc ha he⟩

-- Two requests come with the end of the stream, and the first response keeps the connection open.
def closedPipelined : List Action :=
  client ++ arrival [.received (ascii "GET / HTTP/1.1\r\n\r\nGET / HTTP/1.1\r\n\r\n"),
    .received []] ++ (served [.accepted 1000]).take 17

theorem half_open_pipelined :
    ¬∀ s id c, Reaches (Http.step {}) (fun s x => s.calm {} x) (init {} 1 0) s →
      s.heap id = some c → c.alive → c.peerEof → s.HalfClosed {} c := by
  have ⟨s, _, hr, hw, c, hc, ha, he, hi, ho, hn⟩ := exec_any (Http.step {})
    (fun s x => s.calm {} x) (init {} 1 0) closedPipelined
    (fun s => s.pc = .wait ∧ ∃ c ∈ s.heap 1, c.alive ∧ c.peerEof ∧ c.inFlight = false ∧
      c.output = [] ∧ c.closeAfter = false) (by decide +kernel)
  intro hx
  have hf := ((hx s 1 c hr hc ha he).released hw hi ho).1
  simp [hn] at hf

end System
end Http
