import HttpServer.Connection.Theorems.Reading
import HttpServer.Parser.Theorems.Bounds

open Http.Parser

namespace Http.Connection

-- The bytes that were received for the message that is being parsed.
def held (c : Connection) : Nat :=
  c.parser.consumed + c.input.length

-- No response of the connection is larger than this.
def Fits (c : Connection) (n : Nat) : Prop :=
  ∀ origin date res, .final origin date res ∈ c.log → (serializeResponse date res).length ≤ n

-- What a connection buffers between two callbacks.
structure Bounded (cfg : Config) (c : Connection) : Prop where
  body   : c.parser.Within cfg.limits
  input  : c.held ≤ cfg.maxRequestBytes + kReadBytes
  opens  : c.closeAfter = false → c.held ≤ cfg.maxRequestBytes
  output : ∀ n, c.Fits n → c.output.length < cfg.maxOutputBytes + kContinue.length + n
  busy   : c.inFlight → c.output.length < cfg.maxOutputBytes + kContinue.length

-- A connection that reads: the interim response has been queued only if the parser is past the head.
structure Roomy (cfg : Config) (c : Connection) : Prop where
  body   : c.parser.Within cfg.limits
  input  : c.held ≤ cfg.maxRequestBytes
  output : c.output.length < cfg.maxOutputBytes + if c.parser.late then kContinue.length else 0
  free   : c.inFlight = false

variable {cfg : Config} {c c' : Connection} {env : Env} {io : Io} {now : Time} {n : Nat}
variable {date : Bytes} {origin : Origin} {res : Response}

theorem Fits.of_append {es : List Entry} (hl : c'.log = c.log ++ es) (h : c'.Fits n) : c.Fits n :=
  fun o d r hm => h o d r (by rw [hl]; exact List.mem_append_left _ hm)

theorem queueResponse_output (hx : c.output.length < cfg.maxOutputBytes + kContinue.length)
    (hn : (c.queueResponse date origin res).Fits n) :
    (c.queueResponse date origin res).output.length <
      cfg.maxOutputBytes + kContinue.length + n := by
  have hs := hn origin date (if c.lastHead then { res with sendBody := false } else res)
    (List.mem_append_right _ List.mem_cons_self)
  simp only [queueResponse, List.length_append]
  omega

namespace Bounded

theorem new (id : ConnId) (fd : Fd) (now : Time) (m : Mask) :
    Bounded cfg { Connection.new id fd now with appliedMask := m } where
  body       := .fresh
  input      := Nat.zero_le _
  opens _    := Nat.zero_le _
  output n _ := by
    have hk : 0 < kContinue.length := by decide
    have ho : 0 < cfg.maxOutputBytes + kContinue.length + n := by omega
    exact ho
  busy h     := by cases h

-- The buffers get smaller, and the connection comes closer to its end.
theorem shrink {es : List Entry} (h : Bounded cfg c) (hp : c'.parser = c.parser)
    (hi : c'.input.length ≤ c.input.length) (ho : c'.output.length ≤ c.output.length)
    (hl : c'.log = c.log ++ es) (hc : c'.closeAfter = false → c.closeAfter = false)
    (hf : c'.inFlight → c.inFlight) : Bounded cfg c' := by
  have hh : c'.held ≤ c.held := by
    rw [held, held, hp]
    exact Nat.add_le_add_left hi _
  refine ⟨hp ▸ h.body, Nat.le_trans hh h.input, fun hn => Nat.le_trans hh (h.opens (hc hn)), ?_, ?_⟩
  · exact fun n hn => Nat.lt_of_le_of_lt ho (h.output n (hn.of_append hl))
  · exact fun hb => Nat.lt_of_le_of_lt ho (h.busy (hf hb))

-- The buffers stay as they are.
theorem keep (h : Bounded cfg c) (hp : c'.parser = c.parser) (hi : c'.input = c.input)
    (ho : c'.output = c.output) (hl : c'.log = c.log)
    (hc : c'.closeAfter = false → c.closeAfter = false) (hf : c'.inFlight → c.inFlight) :
    Bounded cfg c' := by
  have hl : c'.log = c.log ++ [] := hl.trans (List.append_nil _).symm
  exact h.shrink hp (by rw [hi]) (by rw [ho]) hl hc hf

theorem kill (h : Bounded cfg c) : Bounded cfg c.kill := by
  have hl : c.kill.log = c.log ++ [] := (List.append_nil _).symm
  exact h.shrink rfl (Nat.zero_le _) (Nat.zero_le _) hl nofun nofun

theorem flush (h : Bounded cfg c) : Bounded cfg (c.flush io).1 := by
  have hl (now : Time) (sends : List Send) : Bounded cfg (flushLoop now sends c).1 := by
    fun_induction flushLoop
    case case3 hi =>
      exact hi (h.shrink rfl (Nat.le_refl _) (by simp [consume]) rfl (fun h => h) fun h => h)
    case case4 | case7 => exact h.kill
    case case5 hi      => exact hi h
    all_goals exact h
  exact hl ..

-- There is room for a response.
theorem of_slack (hb : c.parser.Within cfg.limits) (hi : c.held ≤ cfg.maxRequestBytes)
    (hx : c.output.length < cfg.maxOutputBytes + kContinue.length) : Bounded cfg c where
  body       := hb
  input      := Nat.le_add_right_of_le hi
  opens _    := hi
  output _ _ := Nat.lt_add_right _ hx
  busy _     := hx

-- A response is queued on top of less than the limit and an interim response.
theorem respond (h : Bounded cfg c) (hf : c.inFlight) :
    Bounded cfg ({ c with inFlight := false }.queueResponse date origin res) where
  body     := h.body
  input    := h.input
  opens hc := by
    simp only [queueResponse_closeAfter, Bool.or_eq_false_iff] at hc
    exact h.opens hc.2
  output _ := queueResponse_output (c := { c with inFlight := false }) (h.busy hf)
  busy h   := by cases h

theorem refuse {status : Nat} {detail : String} (hb : c.parser.Within cfg.limits)
    (hi : c.held ≤ cfg.maxRequestBytes + kReadBytes) (hf : c.inFlight = false)
    (hx : c.output.length < cfg.maxOutputBytes + kContinue.length) :
    Bounded cfg (c.queueError date origin status detail) where
  body     := hb
  input    := hi
  opens h  := by cases h
  output _ := queueResponse_output hx
  busy h   := by cases hf.symm.trans h

end Bounded

namespace Roomy

theorem slack (h : Roomy cfg c) : c.output.length < cfg.maxOutputBytes + kContinue.length := by
  have ho := h.output
  split at ho <;> omega

theorem bounded (h : Roomy cfg c) : Bounded cfg c :=
  .of_slack h.body h.input h.slack

theorem flush (h : Roomy cfg c) : Roomy cfg (c.flush io).1 := by
  have hl (now : Time) (sends : List Send) : Roomy cfg (flushLoop now sends c).1 := by
    have hk {c : Connection} (h : Roomy cfg c) : Roomy cfg c.kill :=
      ⟨h.body, Nat.le_trans (Nat.le_add_right ..) h.input, Nat.lt_of_le_of_lt (Nat.zero_le _) h.output,
        rfl⟩
    fun_induction flushLoop
    case case3 hi =>
      refine hi ⟨h.body, h.input, Nat.lt_of_le_of_lt ?_ h.output, h.free⟩
      simp [consume]
    case case4 | case7 => exact hk h
    case case5 hi      => exact hi h
    all_goals exact h
  exact hl ..

-- The parser has taken something from the buffer.
theorem store {p : Parser} {b : Bytes} {st : ParseStatus} (h : Roomy cfg c)
    (hp : c.parser.parse cfg.limits c.input = (st, p, b)) :
    p.Within cfg.limits ∧ (c.store p b).held ≤ cfg.maxRequestBytes := by
  have ⟨hg, _⟩ := parse_grows h.body hp
  exact ⟨hg.within, Nat.le_trans hg.bytes h.input⟩

-- There is one interim response for a message.
theorem expect {p : Parser} {b : Bytes} (h : Roomy cfg c)
    (hp : c.parser.parse cfg.limits c.input = (.expect100, p, b)) :
    Roomy cfg (c.store p b).queueContinue := by
  have ⟨hw, hl⟩ := h.store hp
  have ⟨he, hq⟩ := (parse_grows h.body hp).2 rfl
  have ho := h.output
  rw [he] at ho
  refine ⟨hw, hl, ?_, h.free⟩
  simp only [queueContinue, Connection.store, hq, List.length_append, ite_true]
  exact Nat.add_lt_add_right ho _

end Roomy

theorem Drains.bounded {fuel : Nat} {r : Connection × Env} (hd : Drains cfg fuel c env r)
    (h : Roomy cfg c) : Bounded cfg r.1 := by
  induction hd
  case spent | stop        => exact h.bounded
  case expect hp _ hi      => exact hi (h.expect hp).flush
  case more hp | submit hp _ =>
    have ⟨hw, hl⟩ := h.store hp
    exact .of_slack hw hl h.slack
  case malformed hp | tooLarge hp =>
    have ⟨hw, hl⟩ := h.store hp
    exact Bounded.flush (.refuse hw (Nat.le_add_right_of_le hl) h.free h.slack)
  case overload hp _ =>
    have ⟨hw, hl⟩ := h.store hp
    exact .refuse hw (Nat.le_add_right_of_le hl) rfl h.slack

theorem held_append {bs : Bytes} : (c.append bs now).held = c.held + bs.length := by
  simp only [held, append, List.length_append]
  omega

-- A read takes at most one buffer more than the limit, and then it stops.
theorem receive_bounded {recvs : List Recv} {e : ReadEnd} (hh : c.held ≤ cfg.maxRequestBytes)
    (hr : receive cfg now recvs c = (c', e)) :
    c'.parser = c.parser ∧ c'.output = c.output ∧ c'.held ≤ cfg.maxRequestBytes + kReadBytes ∧
    (e ≠ .overflow → c'.held ≤ cfg.maxRequestBytes) := by
  fun_induction receive
  case case4 c _ _ bs _ _ _ =>
    rw [← (Prod.mk.inj hr).1, ← (Prod.mk.inj hr).2]
    refine ⟨rfl, rfl, ?_, fun hn => absurd rfl hn⟩
    rw [held_append]
    have hl : (bs.take kReadBytes).length ≤ kReadBytes := List.length_take_le ..
    omega
  case case5 hn hi => exact hi (Nat.le_of_not_lt hn) hr
  case case6 hi    => exact hi hh hr
  all_goals
    rw [← (Prod.mk.inj hr).1]
    exact ⟨rfl, rfl, Nat.le_add_right_of_le hh, fun _ => hh⟩

theorem wantRead_output (h : c.wantRead cfg) : c.output.length < cfg.maxOutputBytes := by
  simp only [wantRead] at h
  split at h
  case isTrue  => cases h
  case isFalse => exact of_decide_eq_true h

-- What is received before the limit is exceeded leaves room for the requests.
theorem receive_roomy {d : Connection} {recvs : List Recv} (hw : c.wantRead cfg) (h : Bounded cfg c)
    (hr : receive cfg now recvs c = (d, .done)) : Roomy cfg d := by
  have hc := wantRead_idle hw
  have ⟨hp, ho, _, hl⟩ := receive_bounded (h.opens hc.opens) hr
  refine ⟨hp ▸ h.body, hl (by simp), ?_, (receive_idle hc hr).free⟩
  rw [ho]
  exact Nat.lt_add_right _ (wantRead_output hw)

theorem onReadable_bounded (h : Bounded cfg c) : Bounded cfg (c.onReadable cfg env).1 := by
  have hs := onReadable_cases cfg c env
  generalize c.onReadable cfg env = r at hs ⊢
  cases hs
  case skip => exact h
  case overflow hw hr =>
    have hc := wantRead_idle hw
    have ⟨hp, ho, hl, _⟩ := receive_bounded (h.opens hc.opens) hr
    refine Bounded.flush (.refuse (hp ▸ h.body) hl (receive_idle hc hr).free ?_)
    rw [ho]
    exact Nat.lt_add_right _ (wantRead_output hw)
  case failed hw hr =>
    have ⟨hp, ho, _, hl⟩ := receive_bounded (h.opens (wantRead_idle hw).opens) hr
    refine Bounded.kill (.of_slack (hp ▸ h.body) (hl (by simp)) ?_)
    rw [ho]
    exact Nat.lt_add_right _ (wantRead_output hw)
  case serve hw hr hd _ => exact hd.bounded (receive_roomy hw h hr)
  case close hw hr hd _ _ _ =>
    have hx := hd.bounded (receive_roomy hw h hr)
    exact hx.keep rfl rfl rfl rfl (by simp) fun h => h

theorem onWorkerResult_bounded {x : Completion} (h : Bounded cfg c) :
    Bounded cfg (c.onWorkerResult x io).1 := by
  simp only [onWorkerResult]
  repeat' split
  case isFalse.isFalse hn => exact (h.respond (by simp_all)).flush
  all_goals exact h

theorem onHangup_bounded {err : Bool} (h : Bounded cfg c) : Bounded cfg (c.onHangup err io).1 := by
  simp only [onHangup]
  split
  case isTrue  => exact h.kill
  case isFalse =>
    have h : Bounded cfg { c with peerEof := true, closeAfter := true } :=
      h.keep rfl rfl rfl rfl (by simp) fun h => h
    exact h.flush

theorem onTick_bounded (h : Bounded cfg c) : Bounded cfg (c.onTick cfg now io).1 := by
  rcases onTick_cases cfg now c io with hc | ⟨_, _, _, hc⟩ | hc | ⟨ht, hc⟩ <;> rw [hc]
  case inl         => exact h
  case inr.inl     => exact h.keep rfl rfl rfl rfl (by simp) fun h => h
  case inr.inr.inl => exact h.kill
  case inr.inr.inr =>
    simp only [timesOut, Bool.and_eq_true, Bool.not_eq_true', List.isEmpty_iff] at ht
    have hk : 0 < kContinue.length := by decide
    refine Bounded.flush (.refuse h.body h.input ht.1.1.1.2 ?_)
    rw [ht.1.1.2]
    exact Nat.add_pos_right _ hk

theorem beginDraining_bounded (h : Bounded cfg c) : Bounded cfg c.beginDraining := by
  simp only [beginDraining]
  split
  case isTrue  => exact h.keep rfl rfl rfl rfl (by simp) fun h => h
  case isFalse => exact h.keep rfl rfl rfl rfl (fun h => h) fun h => h

end Http.Connection
