import EchoLife.Board.MacLedger
import EchoLife.Board.MacReserve
import EchoLife.Board.ModemReply
import EchoLife.Flash.CfiGeometry
import EchoLife.Flash.Locking
import EchoLife.Flash.Psi
import EchoLife.Flash.RetriedWrite
import EchoLife.Flash.ScratchPadFirstUse
import EchoLife.Flash.SectorSearch
import EchoLife.Flash.Serialization
import EchoLife.Flash.SpiProgram
import EchoLife.Firmware.BootFs
import EchoLife.Firmware.Containment
import EchoLife.Firmware.EndToEnd
import EchoLife.Firmware.PowerLoss
import EchoLife.Dhcp.ClientLease
import EchoLife.Dhcp.HostNames
import EchoLife.Dhcp.LeaseFile
import EchoLife.Dhcp.LeaseTimes
import EchoLife.Dhcp.OfferedAddress
import EchoLife.Dhcp.Openings
import EchoLife.Dhcp.Overload
import EchoLife.Dhcp.Segments
import EchoLife.Dhcp.SipAddress
import EchoLife.Dhcp.UnknownClients
import EchoLife.Dhcp.VendorData
import EchoLife.Bridge.Aging
import EchoLife.Bridge.IpMacList
import EchoLife.Bridge.Isolation
import EchoLife.Bridge.Lifetime
import EchoLife.Bridge.Membership
import EchoLife.Bridge.VendorClass
import EchoLife.Bridge.VendorTokens
import EchoLife.Bridge.VlanPorts
import EchoLife.Netfilter.BlogCalls
import EchoLife.Netfilter.ConeNat
import EchoLife.Netfilter.EspReclaim
import EchoLife.Netfilter.EspTunnels
import EchoLife.Netfilter.EvictionOrder
import EchoLife.Netfilter.HttpAppdata
import EchoLife.Netfilter.IpsecRemembered
import EchoLife.Netfilter.PortTrigger
import EchoLife.Netfilter.PrsiteTimers
import EchoLife.Netfilter.RtspMapping
import EchoLife.Access.ArpTable
import EchoLife.Access.Probe
import EchoLife.Access.References
