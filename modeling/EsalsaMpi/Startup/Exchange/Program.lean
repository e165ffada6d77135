import EsalsaMpi.Library.Readers
import EsalsaMpi.Startup.CommandLine
import EsalsaMpi.Startup.Networks
import EsalsaMpi.Startup.Ranges

/-!
# What is exchanged at the start

The master gateway of a cluster sends the name of its cluster to the server, which looks it up
in its configuration and replies with the rank of the cluster and the numbers of the run.  Then
the master sends the addresses of all gateways of its cluster.  The server selects one for each,
waits until it has those of all clusters, and sends them with their ports; the master passes the
table that it makes of them on to the other gateways.

All this goes over one connection, without anything between the messages.  A reader takes what
it needs from the bytes that have come (`Reader`), and has no result if the bytes are not what
it expects, or if they end, in which case it waits for ever.
-/

namespace EsalsaMpi

open Wire Readers Networks CommandLine

namespace Startup

/-- `OPCODE_HANDSHAKE`. -/
def opcodeHandshake : UInt32 := 42

/-- `OPCODE_HANDSHAKE_ACCEPTED`. -/
def opcodeHandshakeAccepted : UInt32 := 43

/-- `OPCODE_GATEWAY_INFO`. -/
def opcodeGatewayInfo : UInt32 := 45

/-! ## The name of the cluster -/

/-- Where the name comes from: the file that `EMPI_CONFIG` names, or an argument of the
gateway. -/
inductive NameSource where
  | configFile (file : List UInt8)
  | commandLine (argument : List UInt8)

/-- `isspace`, for a byte. -/
def isBlank (b : UInt8) : Bool := b = 32 || (9 ≤ b && b ≤ 13)

/-- `fscanf` with `%s`. -/
def scanWord : Reader UInt8 (List UInt8) := fun file =>
  let text := file.dropWhile isBlank
  match text.takeWhile (!isBlank ·) with
  | [] => none
  | word => some (word, text.dropWhile (!isBlank ·))

/-- `isdigit`, for a byte. -/
def isDigit (b : UInt8) : Bool := 48 ≤ b && b ≤ 57

/-- The sign in front of a number, and what is behind it. -/
def sign : List UInt8 → Bool × List UInt8
  | 45 :: text => (true, text)
  | 43 :: text => (false, text)
  | text => (false, text)

/-- `fscanf` with `%hu`, of a number that is an `unsigned short`. -/
def scanShort : Reader UInt8 UInt16 := fun file =>
  let (negative, text) := sign (file.dropWhile isBlank)
  match text.takeWhile isDigit with
  | [] => none
  | digits =>
    let n := digits.foldl (fun n d => 10 * n + UInt16.ofNat (d.toNat - 48)) 0
    some (if negative then -n else n, text.dropWhile isDigit)

/-- The string in a buffer. -/
def cString (buffer : List UInt8) : List UInt8 := buffer.takeWhile (· ≠ 0)

/-- What `read_config_file` reads: two words, each by way of `buffer`, and a number. -/
structure ConfigFile where
  clusterName : List UInt8
  serverName : List UInt8
  serverPort : UInt16

/-- `read_config_file`, up to the copies that it makes of the words. -/
def readConfigFile : Reader UInt8 ConfigFile := do
  let clusterName ← scanWord
  let serverName ← scanWord
  let serverPort ← scanShort
  return ⟨clusterName, serverName, serverPort⟩

/-- Bytes are copied to a place of an array; `none` if they go over its end. -/
def copyTo (array : List UInt8) (place : Nat) (bytes : List UInt8) : Option (List UInt8) :=
  if place + bytes.length ≤ array.length then
    some (array.take place ++ bytes ++ array.drop (place + bytes.length))
  else
    none

/-- `malloc`, whose bytes may be any, and `strcpy`. -/
def copyString (size : Nat) (buffer : List UInt8) : Option (List UInt8) :=
  copyTo (List.replicate size 0) 0 (cString buffer ++ [0])

/-- A word and its end in `buffer`. -/
def intoBuffer (word : List UInt8) : Option (List UInt8) :=
  copyTo (List.replicate 1024 0) 0 (word ++ [0])

/-- What `read_config_file` does with the words: `none` if something goes over the end of its
place.  The block for `server_name` has the length of the string that begins one byte behind the
beginning of the buffer, `strlen(buffer+1)`. -/
def ConfigFile.store (config : ConfigFile) : Option (List UInt8 × List UInt8) := do
  let buffer ← intoBuffer config.clusterName
  let clusterName ← copyString ((cString buffer).length + 1) buffer
  let buffer ← intoBuffer config.serverName
  let serverName ← copyString (cString (buffer.drop 1)).length buffer
  return (cString clusterName, cString serverName)

/-- `cluster_name`, by `read_config_file` or by `init_cluster_info`; `none` if there is none or if
it is refused. -/
def NameSource.name : NameSource → Option (List UInt8)
  | .configFile file => (readConfigFile file).map fun (config, _) => cString config.clusterName
  | .commandLine argument =>
    if maxLengthClusterName ≤ (cString argument).length then none else some (cString argument)

/-- The gateway gets as far as the handshake: what it has read has been stored, and there is a
name of the server for `getaddrinfo`, which knows no address of an empty one. -/
def NameSource.Starts : NameSource → Prop
  | .configFile file => ∀ config rest, readConfigFile file = some (config, rest) →
    ∃ clusterName serverName, config.store = some (clusterName, serverName) ∧ serverName ≠ []
  | .commandLine _ => True

/-- A name that the gateway accepts. -/
structure ClusterName where
  source : NameSource
  name : List UInt8
  accepted : source.name = some name

/-! ## The gateway writes -/

/-- A machine, as far as C depends on it. -/
structure Machine where
  order : ByteOrder
  wideLong : Bool

/-- `sizeof(unsigned long)`. -/
def Machine.sizeofLong (m : Machine) : Nat := if m.wideLong then 8 else 4

/-- The message of `handshake`; `none` if it goes over the end of `message`. -/
def handshakeMessage (o : ByteOrder) (name : List UInt8) : Option (List UInt8) := do
  let message := List.replicate (2 * 4 + maxLengthClusterName) 0
  let message ← copyTo message 0 (o.store (o.htonl opcodeHandshake))
  let message ← copyTo message 4 (o.store (o.htonl (UInt32.ofNat name.length)))
  let message ← copyTo message (2 * 4) (name ++ [0])
  return message.take (2 * 4 + name.length)

/-- `send_gateway_info`. -/
def sendGatewayInfo (o : ByteOrder) (clusterRank : UInt32) (rank : Nat)
    (ip4ads : List Ipv4) : List UInt8 :=
  o.store (o.htonl opcodeGatewayInfo) ++ o.store (o.htonl clusterRank) ++
    o.store (o.htonl (UInt32.ofNat rank)) ++ o.store (o.htonl (UInt32.ofNat ip4ads.length)) ++
      ip4ads.flatMap Ipv4.bytes

/-- The master gateway sends its own addresses, and those that it receives from the other
gateways. -/
def sendAllAddresses (o : ByteOrder) (reply : HandshakeReply) (addresses : Nat → List Ipv4) :
    List UInt8 :=
  (List.range reply.gatewayCount.toNat).flatMap fun src =>
    sendGatewayInfo o reply.clusterRank src (addresses src)

/-! ## The server -/

/-- `DataInputStream.readInt`. -/
def readInt : Reader UInt8 UInt32 := Wire.readInt

/-- The beginning of `connectionHandshake`: the name in bytes. -/
def receiveName : Reader UInt8 (List UInt8) := do
  let opcode ← readInt
  require (opcode = opcodeHandshake)
  let len ← readInt
  require (0 < len.toInt32.toInt ∧ len.toInt32.toInt ≤ maxLengthClusterName)
  readFully len.toNat

/-- `InetAddress.getByAddress`, of four bytes that are read. -/
def readAddress : Reader UInt8 Ipv4
  | a :: b :: c :: d :: rest => some (⟨[a, b, c, d], rfl⟩, rest)
  | _ => none

/-- `GatewayInfo`, with the address. -/
structure HeldInfo where
  address : Ipv4
  info : GatewayInfo

/-- `sendGatewayInfo`. -/
def HeldInfo.send (held : HeldInfo) : List UInt8 := held.address.bytes ++ held.info.send

namespace Configuration

variable (cfg : Configuration)

/-- `getCluster` by name, if `text` is the string of the bytes. -/
def getCluster (text : List UInt8 → String) (name : List UInt8) : Option Nat :=
  cfg.clusters.findIdx? fun c => text c.name = text name

/-- `sendHandshakeReply`. -/
def sendHandshakeReply (i : Nat) (c : Cluster) : List UInt8 :=
  bytesOf ([opcodeHandshakeAccepted, UInt32.ofNat i, UInt32.ofNat cfg.clusters.length,
    UInt32.ofNat c.applicationProcesses, UInt32.ofNat cfg.numberOfGatewaysPerCluster] ++
      cfg.sizes.map UInt32.ofNat)

/-- `receiveGatewayInfo`. -/
def receiveGatewayInfo (i : Nat) (c : Cluster) (index : Nat) : Reader UInt8 HeldInfo := do
  let opcode ← readInt
  require (opcode = opcodeGatewayInfo)
  let clusterRank ← readInt
  require (clusterRank = UInt32.ofNat i)
  let gatewayRank ← readInt
  require (gatewayRank = UInt32.ofNat index)
  let ipv4Count ← readInt
  require (0 < ipv4Count.toInt32.toInt)
  let addresses ← (List.range ipv4Count.toNat).mapM fun _ => readAddress
  let address ← ofOption (selectAddress c.network c.netmask addresses)
  return ⟨address, cfg.gatewayInfo c index⟩

/-- `receiveAllGatewayInfo`. -/
def receiveAllGatewayInfo (i : Nat) (c : Cluster) : Reader UInt8 (List HeldInfo) :=
  (List.range cfg.numberOfGatewaysPerCluster).mapM (cfg.receiveGatewayInfo i c)

end Configuration

/-- `sendAllGatewayInfo`. -/
def sendAllGatewayInfo (gateways : List (List HeldInfo)) : List UInt8 :=
  gateways.flatMap fun infos => infos.flatMap HeldInfo.send

/-! ## The gateway reads -/

/-- `handshake`, after the message has been sent. -/
def handshake (o : ByteOrder) : Reader UInt8 HandshakeReply := do
  let m ← readFully 4
  let opcode ← ofOption (o.networkWord m 0)
  require (opcode = opcodeHandshakeAccepted)
  let m ← readFully (4 * 4)
  let clusterRank ← ofOption (o.networkWord m 0)
  let clusterCount ← ofOption (o.networkWord m 1)
  let localApplicationSize ← ofOption (o.networkWord m 2)
  let gatewayCount ← ofOption (o.networkWord m 3)
  let reply : HandshakeReply := ⟨clusterRank, clusterCount, localApplicationSize, gatewayCount⟩
  require (reply.accepted = true)
  return reply

/-- `receive_cluster_sizes`, without the offsets. -/
def receiveClusterSizes (o : ByteOrder) (clusterCount : UInt32) : Reader UInt8 (List UInt32) := do
  let m ← readFully (clusterCount * 4).toNat
  (List.range clusterCount.toNat).mapM fun i => ofOption (o.networkWord m i)

/-- The end of `master_gateway_init`, in a cluster of `size` MPI processes. -/
def masterGatewayInit (o : ByteOrder) (size : Nat) :
    Reader UInt8 (HandshakeReply × List UInt32) := do
  let reply ← handshake o
  require (reply.localApplicationSize + reply.gatewayCount = UInt32.ofNat size)
  let sizes ← receiveClusterSizes o reply.clusterCount
  return (reply, sizes)

/-- `gateway_address`, with `ipv4` as it is in memory. -/
structure TableEntry where
  ipv4 : List UInt8
  info : GatewayAddress

/-- The value of an unsigned number in memory. -/
def valueOf : ByteOrder → List UInt8 → Nat
  | .little, bytes => bytes.foldr (fun b n => b.toNat + 256 * n) 0
  | .big, bytes => bytes.foldl (fun n b => 256 * n + b.toNat) 0

/-- The address that is used, `s_addr = ipv4`: the bytes of an `unsigned int` in memory. -/
def Machine.address (m : Machine) (entry : TableEntry) : List UInt8 :=
  m.order.store (UInt32.ofNat (valueOf m.order entry.ipv4))

/-- `receive_gateway`.  Four bytes are received into an `unsigned long`; if it has more, they
are what has been in the memory before. -/
def receiveGatewayEntry (m : Machine) (before : Nat → UInt8) : Reader UInt8 TableEntry := do
  let ipv4 ← readFully 4
  let port ← readFully 2
  let streams ← readFully 2
  let info ← ofOption (receiveGateway m.order (port ++ streams))
  return ⟨ipv4 ++ (List.range (m.sizeofLong - 4)).map before, info⟩

/-- The loops of `receive_gateway_info`. -/
def gatewayPairs (clusterCount gatewayCount : Nat) : List (Nat × Nat) :=
  (List.range clusterCount).flatMap fun i => (List.range gatewayCount).map fun j => (i, j)

/-- `i*gateway_count+j`. -/
def tableIndex (reply : HandshakeReply) (p : Nat × Nat) : Nat :=
  (UInt32.ofNat p.1 * reply.gatewayCount + UInt32.ofNat p.2).toNat

/-- `receive_gateway`, into a place of `gateway_addresses`. -/
def receiveInto (m : Machine) (before : Nat → Nat → UInt8) (reply : HandshakeReply)
    (table : List TableEntry) (p : Nat × Nat) : Reader UInt8 (List TableEntry) := do
  let entry ← receiveGatewayEntry m (before (tableIndex reply p))
  return table.set (tableIndex reply p) entry

/-- `gateway_addresses`, before anything has been received. -/
def emptyTable (m : Machine) (reply : HandshakeReply) : List TableEntry :=
  List.replicate (reply.clusterCount.toNat * reply.gatewayCount.toNat)
    ⟨List.replicate m.sizeofLong 0, ⟨0, 0⟩⟩

/-- `receive_gateway_info`. -/
def receiveGatewayTable (m : Machine) (before : Nat → Nat → UInt8) (reply : HandshakeReply) :
    Reader UInt8 (List TableEntry) :=
  (gatewayPairs reply.clusterCount.toNat reply.gatewayCount.toNat).foldlM
    (receiveInto m before reply) (emptyTable m reply)

/-- The master gateway sends the table to the other gateways of its cluster. -/
def sendGatewayTable (reply : HandshakeReply) (table : List TableEntry) :
    List (Nat × List TableEntry) :=
  (List.range' 1 (reply.gatewayCount.toNat - 1)).map fun dst => (dst, table)

/-- The table of gateway `g`: the master has received it, and the others get it from the
master. -/
def gatewayTable (reply : HandshakeReply) (table : List TableEntry) (g : Nat) :
    Option (List TableEntry) :=
  if g = 0 then some table else (sendGatewayTable reply table).lookup g

end Startup

end EsalsaMpi
