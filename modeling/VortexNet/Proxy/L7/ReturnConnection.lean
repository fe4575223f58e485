import VortexNet.Proxy.L7.Orderly

/-!
# What goes back to the pool

A backend connection goes back when the parser thinks the response over. That
is so at the end of one final response that the connection brought for the
request, and of nothing else: after an interim response, after the head of a
response that ends with its connection, with surplus bytes or with a parser that
is in another body, the connection goes back with bytes of one client that the
next one gets. `returns_clean` says that in runs without these every connection
goes back empty after a whole answer, and no client gets a byte that came before
its own request.
-/

namespace VortexNet.L7

open Incremental Picohttpparser
open Systems (Reach Always exec)

/-- A connection goes back empty and with a whole answer relayed; bytes relayed are of the
current binding. -/
def Entry.clean : Entry → Prop
  | .returned left exchange => left = [] ∧ Answered exchange.method exchange.relayed
  | .relayed foreign _ => foreign = 0
  | _ => True

def Clean (log : List Log) : Prop := ∀ m ∈ log, m.entry.clean

theorem Entry.foreign_of_clean {e : Entry} (h : e.clean) : e.foreign = 0 := by
  cases e with
  | relayed foreign data => exact h
  | _ => rfl

theorem Entry.clean_of_whole {e : Entry} (h : e.whole) : e.clean := by
  cases e with
  | returned left exchange =>
    obtain ⟨hleft, R, -, hrelayed⟩ := h
    exact ⟨hleft, [], R, hrelayed⟩
  | relayed foreign data => exact h
  | _ => trivial

theorem returns_clean (h : Reach step Orderly { lb } g) : Clean g.log :=
  fun m hm => Entry.clean_of_whole ((inv_of_reach h).whole m hm)

def okHead : Bytes := ascii "HTTP/1.1 200 OK\r\nContent-Length: 2\r\n\r\n"

def okParsed : ResponseHead where
  minor_version := 1
  status := 200
  msg := ⟨13, ascii "OK"⟩
  headers := [⟨some ⟨17, ascii "Content-Length"⟩, ⟨33, ascii "2"⟩⟩]

def okResponse (h : bodiless method okParsed = false) : Response method where
  head := okHead
  parsed := okParsed
  body := ascii "ok"
  accepted := by decide +kernel
  short := by decide
  final := by decide
  framed := .length h (by decide) (by decide)

/-- The backends answer with this response. -/
def answersOk (method got data : Bytes) : Prop :=
  ∃ h : bodiless method okParsed = false, Continues (okResponse h) got data

instance (method got data : Bytes) : Decidable (answersOk method got data) := by
  unfold answersOk
  infer_instance

def reusedRun : List Event :=
  [.accept, .clientRead 0 (ascii "POST /im HTTP/1.1\r\nContent-Length: 2\r\n\r\nh") 0,
    .backendUp 0, .clientRead 0 (ascii "i") 0, .backendRead 0 (okHead ++ ascii "o"),
    .backendRead 0 (ascii "k"), .accept, .clientRead 1 (ascii "GET /im HTTP/1.1\r\n\r\n") 0,
    .backendRead 0 (ascii "HTTP/1.1 200 "),
    .backendRead 0 (ascii "OK\r\nContent-Length: 2\r\n\r\nok")]

theorem returns_clean_reused : ∃ g, exec step (OrderlyIf answersOk) { lb := unconfigured } reusedRun =
    some g ∧ g.returns 0 = 2 ∧ Clean g.log := by
  have hrun : (exec step (OrderlyIf answersOk) { lb := unconfigured } reusedRun).any
      (fun g => g.returns 0 = 2) = true := by decide +kernel
  obtain ⟨g, hg, hret⟩ := (Option.any_eq_true _ _).mp hrun
  have hreach : Reach step Orderly { lb := unconfigured } g :=
    (Reach.of_exec hg).mono fun _ _ => .mono fun _ _ _ ⟨h, hc⟩ => ⟨okResponse h, hc⟩
  exact ⟨g, hg, of_decide_eq_true hret, returns_clean hreach⟩

/-- A backend answers the first client twice in one read; the second client borrows the
connection, and the next read brings it the rest. -/
def surplusRun : List Event :=
  [.accept, .clientRead 0 (ascii "GET /im HTTP/1.1\r\n\r\n") 0, .backendUp 0,
    .backendRead 0 (okHead ++ ascii "ok" ++ okHead ++ ascii "ok"), .accept,
    .clientRead 1 (ascii "GET /im HTTP/1.1\r\n\r\n") 0, .backendRead 0 okHead]

theorem not_returns_clean : ¬ ∀ lb g, Reach step Always { lb } g → Clean g.log := by
  intro h
  have hrun : (exec step Always { lb := unconfigured } surplusRun).any (fun g =>
      g.log.any fun m => m.client = 1 && m.entry.foreign ≠ 0) = true := by
    decide +kernel
  obtain ⟨g, hg, hl⟩ := (Option.any_eq_true _ _).mp hrun
  obtain ⟨m, hm, hf⟩ := List.any_eq_true.mp hl
  simp only [ne_eq, decide_not, Bool.and_eq_true, Bool.not_eq_true', decide_eq_false_iff_not] at hf
  exact hf.2 (Entry.foreign_of_clean (h _ g (.of_exec hg) m hm))

end VortexNet.L7
