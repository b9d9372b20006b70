import TcpIp.Protocols.Ip

/-!
# The receive loop (`src/main.c`)

One round of `process_io`: a read from the device into the thread's buffer, then the handlers on
whatever the buffer holds. The result of the read is only logged.
-/

namespace TcpIp

open Bytes Prog

def BUFLEN : Nat := 100

def handleFrame (header : Ptr) : M Bool := do
  let etherType ← loadU16 (header + 12)
  if etherType = ETH_P_ARP then
    arpReceive header
    return true
  else if etherType = ETH_P_IP then
    ipReceive header
    return false
  else return false

/-- The device's answer to one `read`: a frame, or a failure. -/
abbrev ReadResult := Option (List UInt8)

/-- `net_interface_read`: at most `len` bytes arrive in the buffer; `-1` is a failure. -/
def netInterfaceRead (buffer : Ptr) (len : Nat) (input : ReadResult) : M Int := do
  let net ← Prog.gets (·.net)
  match available net with
  | none => return -1
  | some fi =>
    modifyNet (setBusy fi true)
    let out ← (match input with
      | none => pure (-1)
      | some frame => do
        Prog.modify fun w => w.write buffer (frame.take len)
        pure ((frame.take len).length : Int))
    modifyNet (setBusy fi false)
    return out

/-- The receive buffer of the thread. -/
def rxBuffer : Ptr := ⟨.rx, 0⟩

/-- The body of the loop of `process_io`. -/
def processIoBody (input : ReadResult) : M Unit := do
  let _ ← netInterfaceRead rxBuffer BUFLEN input
  ethHeaderNtoh rxBuffer
  let _ ← handleFrame rxBuffer
  pure ()

end TcpIp
