import GufoBlob.Aio.Consumers
import GufoBlob.Aio.Wrapper
import GufoBlob.BarePath
import GufoBlob.Common.Features
import GufoBlob.Common.Passive
import GufoBlob.ComponentUrls
import GufoBlob.Ftp.Closing
import GufoBlob.Ftp.DataConnections
import GufoBlob.Ftp.Libraries
import GufoBlob.Ftp.Parents
import GufoBlob.Ftp.Reconnect
import GufoBlob.Ftp.Replies
import GufoBlob.Ftp.Sharing
import GufoBlob.Ftp.Upload
import GufoBlob.Interchange
import GufoBlob.Memory.Concurrency
import GufoBlob.S3.ConnectionUrl
import GufoBlob.S3.Sessions
import GufoBlob.S3.Signing
import GufoBlob.Sqlite.Concurrency
import GufoBlob.Sqlite.Identifiers
import GufoBlob.Sqlite.Initialisation
