import Zeta.PaymentFlood
import Zeta.ClassicFlood
import Zeta.AtMostOnce
import Zeta.Namespaces
import Zeta.Interference
import Zeta.Minting
import Zeta.Conservation
import Zeta.Authenticity
import Zeta.Recipients
import Zeta.PeerExpiry
import Zeta.Reflection
import Zeta.Crash
import Zeta.PaymentApi
import Zeta.SharedWallet
import Zeta.Hops
import Zeta.Echo
import Zeta.Reach
import Zeta.Deployment
import Zeta.Acks
import Zeta.SendErrors
import Zeta.Routing
import Zeta.Keys
import Zeta.Page
import Zeta.Markup
import Zeta.Retention
import Zeta.OwnTexts
import Zeta.Program
import Zeta.Stun
import Zeta.NatModel
import Zeta.Probes
import Zeta.NatVerdict
import Zeta.Transport
import Zeta.Membership
import Zeta.Settlement
import Zeta.RelayTasks
import Zeta.NatLoss
import Zeta.AtomicCalls
import Zeta.AwaitNetwork
import Zeta.Durability
import Zeta.Completion
import Zeta.Lives
import Zeta.Installation
