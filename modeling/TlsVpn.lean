import TlsVpn.Brutal.Configure
import TlsVpn.Client.Fwmark
import TlsVpn.Client.HotApply
import TlsVpn.Client.Netifd
import TlsVpn.Client.Record
import TlsVpn.Fec.Finished
import TlsVpn.Fec.Forged
import TlsVpn.Fec.Grammar
import TlsVpn.Fec.Lifetime
import TlsVpn.Fec.Losses
import TlsVpn.Fec.Recovery
import TlsVpn.Fec.Retire
import TlsVpn.Panel.Daily
import TlsVpn.Panel.Events
import TlsVpn.Port.Cork
import TlsVpn.Port.Fairness
import TlsVpn.Port.Link
import TlsVpn.Reorder.Ownership
import TlsVpn.Server.Addresses
import TlsVpn.Server.Bans
import TlsVpn.Server.FrontDoor
import TlsVpn.Server.Macs
import TlsVpn.Server.Retention
import TlsVpn.Server.Rotation
import TlsVpn.Server.Traffic
import TlsVpn.Session.Epochs
import TlsVpn.Session.FecAgreement
import TlsVpn.Session.Nonces
import TlsVpn.Session.Restart
import TlsVpn.Session.Resume
import TlsVpn.Tunnel.Safety
import TlsVpn.Wire.Cut
import TlsVpn.Wire.Limits
