import CompilationBridge.Channel
import CompilationBridge.Outages

/-!
The channel to the host on a bench of its own: what it dials, sends and receives is collected.
-/

namespace CompilationBridge.Simulation

/-- What has become of something that the host wrote. -/
inductive Delivery where
  | noHost
  | failed
  | accepted
deriving DecidableEq, Repr

structure ChannelBench where
  channel : Channel := {}
  dialed : List String := []
  sent : List Message := []
  received : List Message := []
  responses : List Channel.Reply := []
  logs : List LogRecord := []
deriving Inhabited

namespace ChannelBench

/-- Forgets what was seen. -/
def clear (b : ChannelBench) : ChannelBench := { channel := b.channel }

/-- Connects to a host, which may not answer. -/
def connect (b : ChannelBench) (port : Nat) (hostId : String) (fault : Option Fault) :
    ChannelBench × Option Fault :=
  let b := { b with dialed := b.dialed ++ [Channel.address port] }
  match fault with
  | some cause => (b, some (Channel.dialFault port cause))
  | none => ({ b with channel := b.channel.connect hostId }, none)

def send (b : ChannelBench) (m : Message) : ChannelBench × Option Fault :=
  match b.channel.send m with
  | .ok m => ({ b with sent := b.sent ++ [m] }, none)
  | .error fault => (b, some fault)

/-- The host writes to its newest connection. A request without a method is passed over. -/
def post (b : ChannelBench) (r : Channel.Request) : ChannelBench × Delivery :=
  match b.channel.newest? with
  | none => (b, .noHost)
  | some i =>
    if !b.channel.isOpen i then (b, .failed)
    else if r.method = "" then (b, .accepted)
    else
      let channel := (b.channel.arrive i r).read i
      let verdict := r.verdict channel.listening
      let heard := match verdict with
        | .heard message => [message]
        | _ => []
      ({ b with
        channel := channel.finish i
        logs := b.logs ++ verdict.logs
        received := b.received ++ heard
        responses := b.responses ++ (if r.isCall then [verdict.reply] else []) }, .accepted)

/-- The host closes its newest connection. -/
def hangUp (b : ChannelBench) : ChannelBench :=
  match b.channel.newest? with
  | some i => { b with channel := (b.channel.hangUp i).settle i }
  | none => b

end ChannelBench

end CompilationBridge.Simulation
