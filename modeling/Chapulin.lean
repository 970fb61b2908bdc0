import Chapulin.Client.ServerHello
import Chapulin.Client.HelloSize
import Chapulin.Quic.Closing
import Chapulin.Quic.Peers
import Chapulin.Quic.Previous
import Chapulin.Quic.Token
import Chapulin.Server.Certificate
import Chapulin.Server.Compat
import Chapulin.Ccs
import Chapulin.Tcp.Parts
import Chapulin.Quic.Opening
import Chapulin.Cert.WebpkiProfile
import Chapulin.Server.Frozen
import Chapulin.Pem.KeyFiles
import Chapulin.Drbg
import Chapulin.Multiply
import Chapulin.Packing
import Chapulin.Signature
