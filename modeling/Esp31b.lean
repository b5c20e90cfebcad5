import Esp31b.Authenticate
import Esp31b.BodySenders
import Esp31b.CbufResize
import Esp31b.ChunkedBody
import Esp31b.ClientFrame
import Esp31b.ClientHistory
import Esp31b.Collected
import Esp31b.ConnectAttempt
import Esp31b.ContentLength
import Esp31b.DnsName
import Esp31b.Eeprom
import Esp31b.FileHandles
import Esp31b.FormArguments
import Esp31b.Fueled
import Esp31b.HeaderLines
import Esp31b.HttpTarget
import Esp31b.KeepAlive
import Esp31b.Link
import Esp31b.Millis
import Esp31b.NetContexts
import Esp31b.ReceiveQueue
import Esp31b.RequestEnds
import Esp31b.RequestHeader
import Esp31b.ResponseHead
import Esp31b.RequestIsolation
import Esp31b.ResponseIsolation
import Esp31b.RequestRoundTrip
import Esp31b.ResponseRoundTrip
import Esp31b.Segmentation
import Esp31b.SendPath
import Esp31b.SpiffsHal
import Esp31b.SpiffsRead
import Esp31b.UdpReceive
import Esp31b.UdpSend
import Esp31b.UploadFile
import Esp31b.UploadProtocol
import Esp31b.UrlCredentials
import Esp31b.WString
import Esp31b.StringFailure
import Esp31b.StringRuns
import Esp31b.PwmPeriod
import Esp31b.I2s
import Esp31b.ArgumentArray
import Esp31b.UrlDecode
import Esp31b.PrintNumber
import Esp31b.Noniso
import Esp31b.StreamParse
import Esp31b.StreamFind
import Esp31b.BusTrace
import Esp31b.TwoWire
import Esp31b.SpiffsFile
import Esp31b.Replacement
import Esp31b.StringReplaced
import Esp31b.StringGrowing
import Esp31b.Base64Buffer
import Esp31b.MemMem
import Esp31b.Spi
import Esp31b.SpiPattern
import Esp31b.WiFiScan
import Esp31b.WiFiMulti
import Esp31b.UrlParsing
import Esp31b.ResponseFields
import Esp31b.BlockCopy
import Esp31b.SpiClock
import Esp31b.EventHandlers
import Esp31b.PinInterrupts
import Esp31b.HostByName
import Esp31b.ScanStore
import Esp31b.StringEditing
import Esp31b.StreamString
import Esp31b.StringSearch
import Esp31b.StringCompare
import Esp31b.StringSelf
import Esp31b.Md5Builder
import Esp31b.PeekBytes
import Esp31b.Pgmspace
import Esp31b.WMath
import Esp31b.StringReserve
import Esp31b.ClientRegistry
import Esp31b.Sha1
import Esp31b.Cdecode
import Esp31b.SpiffsDevice
import Esp31b.SpiffsCacheRuns
import Esp31b.SpiffsWriteRuns
import Esp31b.SpiffsContent
import Esp31b.SpiffsGc
import Esp31b.SpiffsGcRuns
import Esp31b.SpiffsGcSystem
import Esp31b.SpiffsReaddir
